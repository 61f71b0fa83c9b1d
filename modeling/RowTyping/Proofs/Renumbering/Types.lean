import Mathlib.Order.Monotone.Basic
import RowTyping.Proofs.Renumbering.Keys
import RowTyping.Proofs.Variables
import RowTyping.Scheme

namespace RowTyping

structure Renumbering where
  type : TypeVarId → TypeVarId
  row : RowVarId → RowVarId

namespace Renumbering

def identity : Renumbering :=
  ⟨id, id⟩

def comp (π' π : Renumbering) : Renumbering :=
  ⟨π'.type ∘ π.type, π'.row ∘ π.row⟩

structure Ascends (π : Renumbering) : Prop where
  type : StrictMono π.type
  row : StrictMono π.row

theorem ascends_identity : identity.Ascends :=
  ⟨strictMono_id, strictMono_id⟩

end Renumbering

theorem keepsOrder_of_strictMono {f : Nat → Nat} (hf : StrictMono f) : KeepsOrder f := fun a b => by
  rcases Nat.lt_trichotomy a b with h | rfl | h
  · rw [Nat.compare_eq_lt.mpr h, Nat.compare_eq_lt.mpr (hf h)]
  · rw [Nat.compare_eq_eq.mpr rfl, Nat.compare_eq_eq.mpr rfl]
  · rw [Nat.compare_eq_gt.mpr h, Nat.compare_eq_gt.mpr (hf h)]

variable (π : Renumbering)

def Var.renumber : Var → Var
  | .type id => .type (π.type id)
  | .row id => .row (π.row id)

def TypeVar.renumber (v : TypeVar) : TypeVar :=
  ⟨π.type v.id, v.kind⟩

def Occurrence.renumber : Occurrence → Occurrence
  | .type v => .type (v.renumber π)
  | .tail r k => .tail (π.row r) k

namespace Ty

mutual

def renumber : Ty → Ty
  | .var v => .var (v.renumber π)
  | .con name => .con name
  | .app h as => .app (renumber h) (renumberAll as)
  | .list a => .list (renumber a)
  | .tuple as => .tuple (renumberAll as)
  | .fn ps e r => .fn (renumberAll ps) (renumberEffects e) (renumber r)
  | .record r => .record (renumberRow r)
termination_by structural t => t

def renumberAll : List Ty → List Ty
  | [] => []
  | t :: ts => renumber t :: renumberAll ts
termination_by structural ts => ts

def renumberEffects : Option Row → Option Row
  | none => none
  | some r => some (renumberRow r)
termination_by structural e => e

def renumberRow : Row → Row
  | ⟨k, fs, rest⟩ => ⟨k, renumberFields fs, rest.map π.row⟩
termination_by structural r => r

def renumberFields : List (Label × Ty) → List (Label × Ty)
  | [] => []
  | (l, t) :: fs => (l, renumber t) :: renumberFields fs
termination_by structural fs => fs

end

end Ty

def Row.renumber (r : Row) : Row :=
  Ty.renumberRow π r

def Effects.renumber (e : Effects) : Effects :=
  e.map (Row.renumber π)

namespace Ty

theorem renumberAll_eq (ts : List Ty) : renumberAll π ts = ts.map (renumber π) := by
  induction ts with
  | nil => rfl
  | cons t ts ih => simp [renumberAll, ih]

theorem renumberFields_eq (fs : List (Label × Ty)) : renumberFields π fs = OrderedMap.mapValues (renumber π) fs := by
  induction fs with
  | nil => rfl
  | cons f fs ih => simp only [renumberFields, ih, OrderedMap.mapValues, List.map_cons]

@[simp]
theorem renumber_var (v : TypeVar) : (Ty.var v).renumber π = .var (v.renumber π) := rfl

@[simp]
theorem renumber_con (name : String) : (Ty.con name).renumber π = .con name := rfl

@[simp]
theorem renumber_app (h : Ty) (as : List Ty) : (Ty.app h as).renumber π = .app (h.renumber π) (as.map (renumber π)) :=
  congrArg _ (renumberAll_eq π as)

@[simp]
theorem renumber_list (a : Ty) : (Ty.list a).renumber π = .list (a.renumber π) := rfl

@[simp]
theorem renumber_tuple (as : List Ty) : (Ty.tuple as).renumber π = .tuple (as.map (renumber π)) :=
  congrArg _ (renumberAll_eq π as)

@[simp]
theorem renumber_fn (ps : List Ty) (e : Effects) (r : Ty) :
    (Ty.fn ps e r).renumber π = .fn (ps.map (renumber π)) (e.renumber π) (r.renumber π) := by
  change Ty.fn (renumberAll π ps) (renumberEffects π e) (r.renumber π) = _
  rw [renumberAll_eq]
  cases e <;> rfl

@[simp]
theorem renumber_record (r : Row) : (Ty.record r).renumber π = .record (r.renumber π) := rfl

end Ty

namespace Row

theorem renumber_mk (k : Kind) (fs : List (Label × Ty)) (rest : Option RowVarId) :
    (Row.mk k fs rest).renumber π = ⟨k, OrderedMap.mapValues (Ty.renumber π) fs, rest.map π.row⟩ := by
  rw [← Ty.renumberFields_eq]
  rfl

variable (r : Row)

@[simp]
theorem renumber_kind : (r.renumber π).kind = r.kind := by
  cases r
  rfl

@[simp]
theorem renumber_fields : (r.renumber π).fields = OrderedMap.mapValues (Ty.renumber π) r.fields := by
  cases r
  rw [renumber_mk]

@[simp]
theorem renumber_rest : (r.renumber π).rest = r.rest.map π.row := by
  cases r
  rfl

end Row

variable {π} {π' : Renumbering}

section Laws

theorem Ty.renumber_comp_both :
    (∀ t : Ty, (t.renumber π).renumber π' = t.renumber (π'.comp π)) ∧
      ∀ r : Row, (r.renumber π).renumber π' = r.renumber (π'.comp π) := by
  apply Ty.induct_rows
  case var => exact fun v => rfl
  case con => exact fun name => rfl
  case app =>
    intro h as hh has
    simpa [hh, Function.comp_def] using has
  case list =>
    intro a ha
    simpa using ha
  case tuple =>
    intro as has
    simpa [Function.comp_def] using has
  case fn =>
    intro ps e r hps he hr
    have heffects : Effects.renumber π' (Effects.renumber π e) = Effects.renumber (π'.comp π) e := by
      cases e with
      | none => rfl
      | some row => exact congrArg some (he row rfl)
    simpa [hr, heffects, Function.comp_def] using hps
  case record =>
    intro r hr
    simpa using hr
  case row =>
    intro k fs rest hfs
    simpa [Row.renumber_mk, OrderedMap.mapValues, Function.comp_def, Renumbering.comp] using fun l t => hfs (l, t)

theorem Ty.renumber_comp (t : Ty) : (t.renumber π).renumber π' = t.renumber (π'.comp π) :=
  renumber_comp_both.1 t

theorem Row.renumber_comp (r : Row) : (r.renumber π).renumber π' = r.renumber (π'.comp π) :=
  Ty.renumber_comp_both.2 r

theorem Effects.renumber_comp (e : Effects) : (e.renumber π).renumber π' = e.renumber (π'.comp π) := by
  cases e with
  | none => rfl
  | some r => exact congrArg some r.renumber_comp

theorem TypeVar.renumber_of_fixed {v : TypeVar} (h : (Var.type v.id).renumber π = .type v.id) : v.renumber π = v := by
  rw [renumber, Var.type.inj h]

theorem Ty.renumber_of_fixed_both :
    (∀ t : Ty, (∀ v ∈ t.vars, v.renumber π = v) → t.renumber π = t) ∧
      ∀ r : Row, (∀ v ∈ r.vars, v.renumber π = v) → r.renumber π = r := by
  apply Ty.induct_rows
  case var =>
    intro v h
    rw [renumber_var, TypeVar.renumber_of_fixed (h _ (mem_vars_var.mpr rfl))]
  case con => exact fun name _ => rfl
  case app =>
    intro f as hf has h
    have hmap : as.map (renumber π) = as :=
      (List.map_congr_left fun a ha => has a ha fun v hv => h v (mem_vars_app.mpr (.inr ⟨a, ha, hv⟩))).trans (List.map_id _)
    rw [renumber_app, hmap, hf fun v hv => h v (mem_vars_app.mpr (.inl hv))]
  case list =>
    intro a ha h
    rw [renumber_list, ha h]
  case tuple =>
    intro as has h
    have hmap : as.map (renumber π) = as :=
      (List.map_congr_left fun a ha => has a ha fun v hv => h v (mem_vars_tuple.mpr ⟨a, ha, hv⟩)).trans (List.map_id _)
    rw [renumber_tuple, hmap]
  case fn =>
    intro ps e r hps he hr h
    have hmap : ps.map (renumber π) = ps :=
      (List.map_congr_left fun p hp => hps p hp fun v hv => h v (mem_vars_fn.mpr (.inl ⟨p, hp, hv⟩))).trans (List.map_id _)
    have heffects : Effects.renumber π e = e := by
      cases e with
      | none => rfl
      | some row => exact congrArg some (he row rfl fun v hv => h v (mem_vars_fn.mpr (.inr (.inl ⟨row, rfl, hv⟩))))
    rw [renumber_fn, hmap, heffects, hr fun v hv => h v (mem_vars_fn.mpr (.inr (.inr hv)))]
  case record =>
    intro r hr h
    rw [renumber_record, hr h]
  case row =>
    intro k fs rest hfs h
    have hmap : OrderedMap.mapValues (renumber π) fs = fs :=
      (OrderedMap.mapValues_congr (g := id) fun f hf => hfs f hf fun v hv => h v (Row.mem_vars.mpr (.inl ⟨f, hf, hv⟩))).trans
        (List.map_id _)
    have hrest : rest.map π.row = rest := by
      cases rest with
      | none => rfl
      | some r => exact congrArg some (Var.row.inj (h _ (Row.mem_vars.mpr (.inr ⟨r, rfl, rfl⟩))))
    rw [Row.renumber_mk, hmap, hrest]

theorem Ty.renumber_of_fixed {t : Ty} (h : ∀ v ∈ t.vars, v.renumber π = v) : t.renumber π = t :=
  renumber_of_fixed_both.1 t h

theorem Var.renumber_identity (v : Var) : v.renumber .identity = v := by
  cases v <;> rfl

theorem Ty.renumber_identity (t : Ty) : t.renumber .identity = t :=
  renumber_of_fixed fun v _ => v.renumber_identity

theorem Row.renumber_identity (r : Row) : r.renumber .identity = r :=
  Ty.renumber_of_fixed_both.2 r fun v _ => v.renumber_identity

theorem Renumbering.Ascends.exists_inverse (hπ : π.Ascends) : ∃ π' : Renumbering, π'.comp π = identity := by
  obtain ⟨type, htype⟩ := hπ.type.injective.hasLeftInverse
  obtain ⟨row, hrow⟩ := hπ.row.injective.hasLeftInverse
  exact ⟨⟨type, row⟩, congrArg₂ Renumbering.mk (funext htype) (funext hrow)⟩

theorem Ty.renumber_injective (hπ : π.Ascends) : Function.Injective (renumber π) := fun t u h => by
  obtain ⟨π', hπ'⟩ := hπ.exists_inverse
  rw [← t.renumber_identity, ← u.renumber_identity, ← hπ', ← renumber_comp, ← renumber_comp, h]

theorem Row.renumber_injective (hπ : π.Ascends) : Function.Injective (renumber π) := fun _ _ h =>
  Ty.record.inj (Ty.renumber_injective hπ (congrArg Ty.record h))

end Laws

section Occurrences

theorem Ty.occurrences_renumber_both :
    (∀ t : Ty, (t.renumber π).occurrences = t.occurrences.map (Occurrence.renumber π)) ∧
      ∀ r : Row, (r.renumber π).occurrences = r.occurrences.map (Occurrence.renumber π) := by
  apply Ty.induct_rows
  case var => exact fun v => rfl
  case con => exact fun name => rfl
  case app =>
    intro h as hh has
    simp only [renumber_app, occurrences, occurrencesAll_eq, List.flatMap_map, List.map_append, List.map_flatMap, hh]
    rw [List.flatMap_congr has]
  case list =>
    intro a ha
    exact ha
  case tuple =>
    intro as has
    simp only [renumber_tuple, occurrences, occurrencesAll_eq, List.flatMap_map, List.map_flatMap]
    exact List.flatMap_congr has
  case fn =>
    intro ps e r hps he hr
    have heffects : occurrencesEffects (Effects.renumber π e) = (occurrencesEffects e).map (Occurrence.renumber π) := by
      cases e with
      | none => rfl
      | some row => exact he row rfl
    simp only [renumber_fn, occurrences, occurrencesAll_eq, List.flatMap_map, List.map_append, List.map_flatMap, heffects, hr]
    rw [List.flatMap_congr hps]
  case record =>
    intro r hr
    exact hr
  case row =>
    intro k fs rest hfs
    have htail : ((rest.map π.row).map (Occurrence.tail · k)).toList =
        ((rest.map (Occurrence.tail · k)).toList).map (Occurrence.renumber π) := by
      cases rest <;> rfl
    simp only [Row.renumber_mk, Row.occurrences, occurrencesRow, occurrencesFields_eq, OrderedMap.mapValues,
      List.flatMap_map, List.map_append, List.map_flatMap, htail]
    rw [List.flatMap_congr hfs]

theorem Ty.occurrences_renumber (t : Ty) : (t.renumber π).occurrences = t.occurrences.map (Occurrence.renumber π) :=
  occurrences_renumber_both.1 t

theorem Row.occurrences_renumber (r : Row) : (r.renumber π).occurrences = r.occurrences.map (Occurrence.renumber π) :=
  Ty.occurrences_renumber_both.2 r

end Occurrences

end RowTyping
