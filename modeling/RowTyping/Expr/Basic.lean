import RowTyping.Expr.Operator
import RowTyping.OrderedMap

namespace RowTyping

abbrev NodeId := Nat

def nodeText (id : NodeId) : String :=
  "#" ++ toString id

inductive Literal where
  | int (n : Int)
  | float (digits : String)
  | string (s : String)
  | bool (b : Bool)
  | unit
  | bytes (bs : List UInt8)
  deriving DecidableEq, Repr, Inhabited

inductive Pattern where
  | wildcard (id : NodeId)
  | var (id : NodeId) (name : String)
  | lit (id : NodeId) (l : Literal)
  | tuple (id : NodeId) (elems : List Pattern)
  | list (id : NodeId) (elems : List Pattern) (rest : Option Pattern)
  | record (id : NodeId) (fields : List (String × Pattern)) (isOpen : Bool)
  deriving Inhabited

inductive Expr where
  | lit (id : NodeId) (l : Literal)
  | var (id : NodeId) (name : String)
  | lambda (id : NodeId) (params : List String) (body : Expr)
  | app (id : NodeId) (func : Expr) (args : List Expr)
  | letIn (id : NodeId) (name : String) (value : Expr) (body : Expr)
  | letRec (id : NodeId) (bindings : List (String × Expr)) (body : Expr)
  | cond (id : NodeId) (condition : Expr) (thenBranch : Expr) (elseBranch : Expr)
  | binary (id : NodeId) (op : BinaryOp) (left : Expr) (right : Expr)
  | unary (id : NodeId) (op : UnaryOp) (operand : Expr)
  | record (id : NodeId) (fields : List (String × Expr))
  | field (id : NodeId) (record : Expr) (name : String)
  | update (id : NodeId) (record : Expr) (fields : List (String × Expr))
  | list (id : NodeId) (elems : List Expr)
  | tuple (id : NodeId) (elems : List Expr)
  | caseOf (id : NodeId) (scrutinee : Expr) (arms : List (Pattern × Expr))
  deriving Inhabited

abbrev Binding := String × Expr

namespace Pattern

def id : Pattern → NodeId
  | .wildcard id => id
  | .var id _ => id
  | .lit id _ => id
  | .tuple id _ => id
  | .list id _ _ => id
  | .record id _ _ => id

mutual

def boundNames : Pattern → List String
  | .wildcard _ => []
  | .var _ name => [name]
  | .lit _ _ => []
  | .tuple _ ps => boundNamesAll ps
  | .list _ ps rest => boundNamesAll ps ++ boundNamesRest rest
  | .record _ fs _ => boundNamesFields fs
termination_by structural p => p

def boundNamesAll : List Pattern → List String
  | [] => []
  | p :: ps => p.boundNames ++ boundNamesAll ps
termination_by structural ps => ps

def boundNamesRest : Option Pattern → List String
  | none => []
  | some p => p.boundNames
termination_by structural p => p

def boundNamesFields : List (String × Pattern) → List String
  | [] => []
  | (_, p) :: fs => p.boundNames ++ boundNamesFields fs
termination_by structural fs => fs

end

end Pattern

namespace Expr

def id : Expr → NodeId
  | .lit id _ => id
  | .var id _ => id
  | .lambda id _ _ => id
  | .app id _ _ => id
  | .letIn id _ _ _ => id
  | .letRec id _ _ => id
  | .cond id _ _ _ => id
  | .binary id _ _ _ => id
  | .unary id _ _ => id
  | .record id _ => id
  | .field id _ _ => id
  | .update id _ _ => id
  | .list id _ => id
  | .tuple id _ => id
  | .caseOf id _ _ => id

mutual

def isValue : Expr → Bool
  | .lit _ _ => true
  | .lambda _ _ _ => true
  | .record _ fs => areValuesFields fs
  | .list _ es => areValues es
  | .tuple _ es => areValues es
  | _ => false
termination_by structural e => e

def areValues : List Expr → Bool
  | [] => true
  | e :: es => e.isValue && areValues es
termination_by structural es => es

def areValuesFields : List (String × Expr) → Bool
  | [] => true
  | (_, e) :: fs => e.isValue && areValuesFields fs
termination_by structural fs => fs

end

end Expr

inductive Decl where
  | bind (id : NodeId) (name : String) (value : Expr)
  | bindRec (id : NodeId) (bindings : List Binding)
  | expr (e : Expr)
  deriving Inhabited

namespace Decl

def id : Decl → NodeId
  | .bind id _ _ => id
  | .bindRec id _ => id
  | .expr e => e.id

def letLabel (name : String) : String :=
  "let " ++ name

def letRecLabel (bindings : List Binding) : String :=
  "letrec " ++ ", ".intercalate (bindings.map Prod.fst)

def label : Decl → String
  | .bind _ name _ => letLabel name
  | .bindRec _ bindings => letRecLabel bindings
  | .expr _ => "expression"

end Decl

abbrev EffectSignatures := OrderedMap NodeId (List String)

structure Program where
  decls : List Decl
  signatures : EffectSignatures
  deriving Inhabited

end RowTyping
