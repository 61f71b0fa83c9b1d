import RowTyping.Typed.Tree

namespace RowTyping.Substitution

variable (s : Substitution)

def applyInfo (i : NodeInfo) : NodeInfo :=
  { i with ty := s.apply i.ty, effects := s.applyEffects i.effects }

mutual

def applyPattern : TypedPattern → TypedPattern
  | .wildcard id t => .wildcard id (s.apply t)
  | .var id t name => .var id (s.apply t) name
  | .lit id t l => .lit id (s.apply t) l
  | .tuple id t ps => .tuple id (s.apply t) (applyPatterns ps)
  | .list id t ps rest => .list id (s.apply t) (applyPatterns ps) (applyPatternRest rest)
  | .record id t fs o => .record id (s.apply t) (applyPatternFields fs) o
termination_by structural p => p

def applyPatterns : List TypedPattern → List TypedPattern
  | [] => []
  | p :: ps => applyPattern p :: applyPatterns ps
termination_by structural ps => ps

def applyPatternRest : Option TypedPattern → Option TypedPattern
  | none => none
  | some p => some (applyPattern p)
termination_by structural p => p

def applyPatternFields : List (String × TypedPattern) → List (String × TypedPattern)
  | [] => []
  | (name, p) :: fs => (name, applyPattern p) :: applyPatternFields fs
termination_by structural fs => fs

end

mutual

def applyExpr : TypedExpr → TypedExpr
  | .lit i l => .lit (s.applyInfo i) l
  | .var i name => .var (s.applyInfo i) name
  | .lambda i params body =>
      .lambda (s.applyInfo i) (params.map fun p => (p.1, s.apply p.2)) (applyExpr body)
  | .app i func args => .app (s.applyInfo i) (applyExpr func) (applyExprs args)
  | .letIn i name scheme value body =>
      .letIn (s.applyInfo i) name (s.applyScheme scheme) (applyExpr value) (applyExpr body)
  | .letRec i bindings body => .letRec (s.applyInfo i) (applyBindings bindings) (applyExpr body)
  | .cond i c t f => .cond (s.applyInfo i) (applyExpr c) (applyExpr t) (applyExpr f)
  | .binary i op l r => .binary (s.applyInfo i) op (applyExpr l) (applyExpr r)
  | .concat i kind l r => .concat (s.applyInfo i) kind (applyExpr l) (applyExpr r)
  | .unary i op operand => .unary (s.applyInfo i) op (applyExpr operand)
  | .record i fs => .record (s.applyInfo i) (applyExprFields fs)
  | .field i record name => .field (s.applyInfo i) (applyExpr record) name
  | .update i record fs => .update (s.applyInfo i) (applyExpr record) (applyExprFields fs)
  | .list i es => .list (s.applyInfo i) (applyExprs es)
  | .tuple i es => .tuple (s.applyInfo i) (applyExprs es)
  | .caseOf i scrutinee arms => .caseOf (s.applyInfo i) (applyExpr scrutinee) (applyArms arms)
termination_by structural e => e

def applyExprs : List TypedExpr → List TypedExpr
  | [] => []
  | e :: es => applyExpr e :: applyExprs es
termination_by structural es => es

def applyExprFields : List (String × TypedExpr) → List (String × TypedExpr)
  | [] => []
  | (name, e) :: fs => (name, applyExpr e) :: applyExprFields fs
termination_by structural fs => fs

def applyBindings : List TypedBinding → List TypedBinding
  | [] => []
  | ⟨name, scheme, e⟩ :: bs => ⟨name, s.applyScheme scheme, applyExpr e⟩ :: applyBindings bs
termination_by structural bs => bs

def applyArms : List (TypedPattern × TypedExpr) → List (TypedPattern × TypedExpr)
  | [] => []
  | (p, e) :: arms => (s.applyPattern p, applyExpr e) :: applyArms arms
termination_by structural arms => arms

end

def applyDecl : TypedDecl → TypedDecl
  | .bind id name scheme value => .bind id name (s.applyScheme scheme) (s.applyExpr value)
  | .bindRec id bindings => .bindRec id (s.applyBindings bindings)
  | .expr e => .expr (s.applyExpr e)

theorem info_applyExpr (e : TypedExpr) : (s.applyExpr e).info = s.applyInfo e.info := by
  cases e <;> simp [applyExpr, TypedExpr.info]

end RowTyping.Substitution
