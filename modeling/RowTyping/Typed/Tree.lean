import RowTyping.Expr.Basic
import RowTyping.Substitution

namespace RowTyping

inductive ConcatKind where
  | string
  | list
  deriving DecidableEq, Repr, Inhabited

inductive TypedPattern where
  | wildcard (id : NodeId) (ty : Ty)
  | var (id : NodeId) (ty : Ty) (name : String)
  | lit (id : NodeId) (ty : Ty) (l : Literal)
  | tuple (id : NodeId) (ty : Ty) (elems : List TypedPattern)
  | list (id : NodeId) (ty : Ty) (elems : List TypedPattern) (rest : Option TypedPattern)
  | record (id : NodeId) (ty : Ty) (fields : List (String × TypedPattern)) (isOpen : Bool)
  deriving Inhabited

structure NodeInfo where
  id : NodeId
  ty : Ty
  effects : Effects
  deriving DecidableEq, Inhabited

mutual

inductive TypedExpr where
  | lit (info : NodeInfo) (l : Literal)
  | var (info : NodeInfo) (name : String)
  | lambda (info : NodeInfo) (params : List (String × Ty)) (body : TypedExpr)
  | app (info : NodeInfo) (func : TypedExpr) (args : List TypedExpr)
  | letIn (info : NodeInfo) (name : String) (scheme : Scheme) (value : TypedExpr) (body : TypedExpr)
  | letRec (info : NodeInfo) (bindings : List TypedBinding) (body : TypedExpr)
  | cond (info : NodeInfo) (condition : TypedExpr) (thenBranch : TypedExpr) (elseBranch : TypedExpr)
  | binary (info : NodeInfo) (op : BinaryOp) (left : TypedExpr) (right : TypedExpr)
  | concat (info : NodeInfo) (kind : ConcatKind) (left : TypedExpr) (right : TypedExpr)
  | unary (info : NodeInfo) (op : UnaryOp) (operand : TypedExpr)
  | record (info : NodeInfo) (fields : List (String × TypedExpr))
  | field (info : NodeInfo) (record : TypedExpr) (name : String)
  | update (info : NodeInfo) (record : TypedExpr) (fields : List (String × TypedExpr))
  | list (info : NodeInfo) (elems : List TypedExpr)
  | tuple (info : NodeInfo) (elems : List TypedExpr)
  | caseOf (info : NodeInfo) (scrutinee : TypedExpr) (arms : List (TypedPattern × TypedExpr))

structure TypedBinding where
  name : String
  scheme : Scheme
  value : TypedExpr

end

namespace TypedPattern

def id : TypedPattern → NodeId
  | .wildcard id _ => id
  | .var id _ _ => id
  | .lit id _ _ => id
  | .tuple id _ _ => id
  | .list id _ _ _ => id
  | .record id _ _ _ => id

def ty : TypedPattern → Ty
  | .wildcard _ t => t
  | .var _ t _ => t
  | .lit _ t _ => t
  | .tuple _ t _ => t
  | .list _ t _ _ => t
  | .record _ t _ _ => t

end TypedPattern

namespace TypedExpr

instance : Inhabited TypedExpr := ⟨.lit default .unit⟩

def info : TypedExpr → NodeInfo
  | .lit i _ => i
  | .var i _ => i
  | .lambda i _ _ => i
  | .app i _ _ => i
  | .letIn i _ _ _ _ => i
  | .letRec i _ _ => i
  | .cond i _ _ _ => i
  | .binary i _ _ _ => i
  | .concat i _ _ _ => i
  | .unary i _ _ => i
  | .record i _ => i
  | .field i _ _ => i
  | .update i _ _ => i
  | .list i _ => i
  | .tuple i _ => i
  | .caseOf i _ _ => i

def id (e : TypedExpr) : NodeId :=
  e.info.id

def ty (e : TypedExpr) : Ty :=
  e.info.ty

def effects (e : TypedExpr) : Effects :=
  e.info.effects

mutual

def nodes (e : TypedExpr) : List TypedExpr :=
  e :: match e with
    | .lit _ _ => []
    | .var _ _ => []
    | .lambda _ _ body => body.nodes
    | .app _ func args => func.nodes ++ nodesAll args
    | .letIn _ _ _ value body => value.nodes ++ body.nodes
    | .letRec _ bindings body => nodesBindings bindings ++ body.nodes
    | .cond _ c t f => c.nodes ++ t.nodes ++ f.nodes
    | .binary _ _ l r => l.nodes ++ r.nodes
    | .concat _ _ l r => l.nodes ++ r.nodes
    | .unary _ _ operand => operand.nodes
    | .record _ fs => nodesFields fs
    | .field _ base _ => base.nodes
    | .update _ base fs => base.nodes ++ nodesFields fs
    | .list _ es => nodesAll es
    | .tuple _ es => nodesAll es
    | .caseOf _ scrutinee arms => scrutinee.nodes ++ nodesArms arms
termination_by structural e

def nodesAll : List TypedExpr → List TypedExpr
  | [] => []
  | e :: es => e.nodes ++ nodesAll es
termination_by structural es => es

def nodesFields : List (String × TypedExpr) → List TypedExpr
  | [] => []
  | (_, e) :: fs => e.nodes ++ nodesFields fs
termination_by structural fs => fs

def nodesBindings : List TypedBinding → List TypedExpr
  | [] => []
  | ⟨_, _, e⟩ :: bs => e.nodes ++ nodesBindings bs
termination_by structural bs => bs

def nodesArms : List (TypedPattern × TypedExpr) → List TypedExpr
  | [] => []
  | (_, e) :: arms => e.nodes ++ nodesArms arms
termination_by structural arms => arms

end

end TypedExpr

inductive TypedDecl where
  | bind (id : NodeId) (name : String) (scheme : Scheme) (value : TypedExpr)
  | bindRec (id : NodeId) (bindings : List TypedBinding)
  | expr (e : TypedExpr)

namespace TypedDecl

def exprs : TypedDecl → List TypedExpr
  | .bind _ _ _ value => [value]
  | .bindRec _ bindings => bindings.map TypedBinding.value
  | .expr e => [e]

end TypedDecl

end RowTyping
