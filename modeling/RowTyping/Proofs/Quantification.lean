import RowTyping.Infer.Generalize
import RowTyping.Proofs.Binding

namespace RowTyping

namespace Scheme

variable {scheme : Scheme}

theorem type_mem_quantified {id : TypeVarId} : .type id ∈ scheme.quantified ↔ id ∈ scheme.typeVars.map TypeVar.id := by
  simp [quantified]

theorem row_mem_quantified {id : RowVarId} : .row id ∈ scheme.quantified ↔ id ∈ scheme.rowVars := by
  simp [quantified]

end Scheme

namespace Ty

variable {t : Ty} {ps : List Predicate} {envTypeVars : List TypeVarId} {envRowVars : List RowVarId}

theorem ascending_typeVarKinds (t : Ty) : t.typeVarKinds.Ascending :=
  t.typeVarKinds_eq ▸ OrderedMap.ascending_ofList _

theorem ascending_rowVarKinds (t : Ty) : t.rowVarKinds.Ascending :=
  t.rowVarKinds_eq ▸ OrderedMap.ascending_ofList _

theorem mem_typeVars_generalize {v : TypeVarId} :
    v ∈ (t.generalize ps envTypeVars envRowVars).typeVars.map TypeVar.id ↔ v ∈ OrderedSet.diff t.typeVars envTypeVars := by
  rw [OrderedSet.mem_diff, ← keys_typeVarKinds]
  simp only [generalize, OrderedMap.keys, List.mem_map, List.mem_filter]
  grind

theorem mem_rowVars_generalize {r : RowVarId} :
    r ∈ (t.generalize ps envTypeVars envRowVars).rowVars ↔ r ∈ OrderedSet.diff t.rowVars envRowVars := by
  rw [OrderedSet.mem_diff, ← keys_rowVarKinds]
  simp [generalize]

end Ty

namespace Substitution

theorem find?_foldl_erase {κ α β : Type} [BEq κ] [LawfulBEq κ] [DecidableEq κ] (f : β → κ) (bs : List β) (m : OrderedMap κ α)
    (k : κ) : (bs.foldl (fun m b => m.erase (f b)) m).find? k = if k ∈ bs.map f then none else m.find? k := by
  induction bs generalizing m with
  | nil => rfl
  | cons b bs ih =>
      rw [List.foldl_cons, ih, OrderedMap.find?_erase, List.map_cons]
      by_cases hk : k = f b <;> by_cases hbs : k ∈ bs.map f <;> simp [hk, hbs]

theorem ascending_foldl_erase {κ α β : Type} [Ord κ] [BEq κ] (f : β → κ) (bs : List β) {m : OrderedMap κ α} (hm : m.Ascending) :
    OrderedMap.Ascending (bs.foldl (fun m b => m.erase (f b)) m) := by
  induction bs generalizing m with
  | nil => exact hm
  | cons b bs ih => exact ih (OrderedMap.Ascending.filter _ hm)

variable (s : Substitution) (scheme : Scheme)

theorem lookupType_outside (id : TypeVarId) :
    (s.outside scheme).lookupType id = if .type id ∈ scheme.quantified then none else s.lookupType id := by
  simp only [Scheme.type_mem_quantified]
  exact find?_foldl_erase TypeVar.id scheme.typeVars s.types id

theorem lookupRow_outside (id : RowVarId) :
    (s.outside scheme).lookupRow id = if .row id ∈ scheme.quantified then none else s.lookupRow id := by
  simp only [Scheme.row_mem_quantified]
  refine (find?_foldl_erase (fun r => r) scheme.rowVars s.rows id).trans ?_
  rw [List.map_id']
  rfl

theorem extends_outside : s.Extends (s.outside scheme) := by
  constructor
  · intro id t ht
    rw [lookupType_outside] at ht
    exact (ite_eq_iff.mp ht).elim (fun h => nomatch h.2) And.right
  · intro id r hr
    rw [lookupRow_outside] at hr
    exact (ite_eq_iff.mp hr).elim (fun h => nomatch h.2) And.right

variable {s scheme}

theorem binds_outside {v : Var} : (s.outside scheme).Binds v ↔ v ∉ scheme.quantified ∧ s.Binds v := by
  cases v with
  | type id =>
      simp only [Binds, lookupType_outside]
      by_cases hid : .type id ∈ scheme.quantified <;> simp [hid]
  | row id =>
      simp only [Binds, lookupRow_outside]
      by_cases hid : .row id ∈ scheme.quantified <;> simp [hid]

end Substitution

end RowTyping
