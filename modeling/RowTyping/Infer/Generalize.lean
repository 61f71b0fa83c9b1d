import RowTyping.Infer.Context

namespace RowTyping

def Ty.generalize (t : Ty) (predicates : List Predicate) (envTypeVars : List TypeVarId)
    (envRowVars : List RowVarId) : Scheme where
  typeVars := (t.typeVarKinds.filter fun e => !envTypeVars.contains e.1).map fun e => ⟨e.1, e.2⟩
  rowVars := t.rowVarKinds.keys.filter fun r => !envRowVars.contains r
  predicates := predicates
  ty := t

namespace InferM

def freshTypeRenaming : List TypeVar → InferM (List (TypeVarId × Ty))
  | [] => return []
  | v :: vs => do
      let fresh ← freshTypeVar
      return (v.id, .var ⟨fresh, v.kind⟩) :: (← freshTypeRenaming vs)

def freshRowRenaming : List RowVarId → InferM (List (RowVarId × Row))
  | [] => return []
  | r :: rs => do
      let fresh ← freshRow
      return (r, .openRecord [] fresh) :: (← freshRowRenaming rs)

def addPredicates (node : NodeId) (mapping : Substitution) (ps : List Predicate) : InferM Unit :=
  ps.forM fun p => addClass p.className (mapping.apply p.ty) node .instantiation

def instantiate (scheme : Scheme) (node : NodeId) : InferM Ty := do
  if scheme.isMono then return scheme.ty
  let types ← freshTypeRenaming scheme.typeVars
  let rows ← freshRowRenaming scheme.rowVars
  let mapping : Substitution := ⟨OrderedMap.ofList types, OrderedMap.ofList rows⟩
  addPredicates node mapping scheme.predicates
  let t := mapping.apply scheme.ty
  note node t (.instantiate scheme)
  return t

end InferM

end RowTyping
