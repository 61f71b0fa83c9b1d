import RowTyping.Expr.Basic
import RowTyping.OrderedSet

namespace RowTyping.Expr

def without (bound : List String) (names : List String) : List String :=
  names.filter fun name => !bound.contains name

mutual

def freeUses : Expr → List String
  | .lit _ _ => []
  | .var _ name => [name]
  | .lambda _ params body => without params body.freeUses
  | .app _ func args => func.freeUses ++ freeUsesAll args
  | .letIn _ name value body => value.freeUses ++ without [name] body.freeUses
  | .letRec _ bindings body => without (bindings.map Prod.fst) (freeUsesFields bindings ++ body.freeUses)
  | .cond _ c t e => c.freeUses ++ t.freeUses ++ e.freeUses
  | .binary _ _ l r => l.freeUses ++ r.freeUses
  | .unary _ _ e => e.freeUses
  | .record _ fs => freeUsesFields fs
  | .field _ e _ => e.freeUses
  | .update _ e fs => e.freeUses ++ freeUsesFields fs
  | .list _ es => freeUsesAll es
  | .tuple _ es => freeUsesAll es
  | .caseOf _ e arms => e.freeUses ++ freeUsesArms arms
termination_by structural e => e

def freeUsesAll : List Expr → List String
  | [] => []
  | e :: es => e.freeUses ++ freeUsesAll es
termination_by structural es => es

def freeUsesFields : List (String × Expr) → List String
  | [] => []
  | (_, e) :: fs => e.freeUses ++ freeUsesFields fs
termination_by structural fs => fs

def freeUsesArms : List (Pattern × Expr) → List String
  | [] => []
  | (p, e) :: arms => without p.boundNames e.freeUses ++ freeUsesArms arms
termination_by structural arms => arms

end

def freeNames (e : Expr) : OrderedSet String :=
  .ofList e.freeUses

theorem mem_without {bound names : List String} {x : String} :
    x ∈ without bound names ↔ x ∈ names ∧ x ∉ bound := by
  simp [without]

theorem mem_freeNames {e : Expr} {x : String} : x ∈ e.freeNames ↔ x ∈ e.freeUses :=
  OrderedSet.mem_ofList

end RowTyping.Expr
