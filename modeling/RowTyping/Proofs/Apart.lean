import RowTyping.Proofs.Binding

namespace RowTyping

open Relation

def Row.Apart (A : Assignment) (r : Row) : Prop :=
  ∀ l ∈ r.labels, l ∉ OrderedMap.keys (A.tail r.rest).fields

def Ty.Apart (A : Assignment) (t : Ty) : Prop :=
  ∀ r ∈ t.rows, r.Apart A

def Row.AllApart (A : Assignment) (r : Row) : Prop :=
  ∀ r' ∈ r.rows, r'.Apart A

instance (A : Assignment) (r : Row) : Decidable (r.Apart A) :=
  inferInstanceAs (Decidable (∀ l ∈ r.labels, _))

instance (A : Assignment) (t : Ty) : Decidable (t.Apart A) :=
  inferInstanceAs (Decidable (∀ r ∈ t.rows, r.Apart A))

variable {A : Assignment}

theorem Row.Apart.find?_tail {r : Row} (h : r.Apart A) {l : Label} {t : Ty} (ht : r.get? l = some t) :
    OrderedMap.find? (A.tail r.rest).fields l = none :=
  OrderedMap.find?_eq_none_iff.mpr (h l (OrderedMap.mem_keys_of_find? ht))

theorem Row.allApart_iff {r : Row} : r.AllApart A ↔ r.Apart A ∧ ∀ f ∈ r.fields, f.2.Apart A := by
  obtain ⟨k, fs, rest⟩ := r
  constructor
  · intro h
    exact ⟨h _ (mem_rows.mpr (.inl rfl)), fun f hf r hr => h r (mem_rows.mpr (.inr ⟨f, hf, hr⟩))⟩
  · rintro ⟨hself, h⟩ r hr
    rcases mem_rows.mp hr with rfl | ⟨f, hf, hr⟩
    · exact hself
    · exact h f hf r hr

theorem Row.Apart.filter {r : Row} (h : r.Apart A) (p : Label × Ty → Bool) :
    Row.Apart A { r with fields := r.fields.filter p } := by
  intro l hl
  obtain ⟨f, hf, rfl⟩ := List.mem_map.mp hl
  exact h f.1 (OrderedMap.mem_keys_of_mem (List.mem_of_mem_filter hf))

section Replacing

variable {σ : TypeVarId → Option Ty} {ρ : RowVarId → Option Row}

theorem Row.Apart.substRow {r : Row} (hr : r.Apart A)
    (hρ : ∀ id x, ρ id = some x → x.AllApart A ∧ x.Ordered ∧ A.row id = (x.value A).tail) (hA : A.Ordered) :
    (Ty.substRow σ ρ r).Apart A := by
  obtain ⟨k, fs, rest⟩ := r
  cases htail : rest.bind ρ with
  | none =>
      rw [Ty.substRow_none_tail htail]
      intro l hl
      exact hr l (by simpa [labels] using hl)
  | some x =>
      obtain ⟨id, rfl, hx⟩ := Option.bind_eq_some_iff.mp htail
      obtain ⟨hapart, hordered, hrow⟩ := hρ id x hx
      rw [Ty.substRow_some_tail htail]
      intro l hl
      rcases (OrderedMap.mem_keys_merge (Row.ordered_iff.mp hordered).1).mp hl with hl | hl
      · have hnot := hr l (by simpa [labels] using hl)
        rw [Assignment.tail, hrow, tail_value] at hnot
        exact fun hmem => hnot ((OrderedMap.mem_keys_merge (hA.tail _)).mpr (.inr hmem))
      · exact (allApart_iff.mp hapart).1 l hl

theorem apart_imageRows (hσ : ∀ id x, σ id = some x → x.Apart A)
    (hρ : ∀ id x, ρ id = some x → x.AllApart A ∧ x.Ordered ∧ A.row id = (x.value A).tail) {v : Var} {row : Row}
    (h : row ∈ Ty.imageRows σ ρ v) : row.Apart A := by
  cases v with
  | type id =>
      cases hx : σ id with
      | none => simp [Ty.imageRows, hx] at h
      | some x => exact hσ id x hx row (by simpa [Ty.imageRows, hx] using h)
  | row id =>
      cases hx : ρ id with
      | none => simp [Ty.imageRows, hx] at h
      | some x =>
          obtain ⟨f, hf, h⟩ := Ty.mem_rowsFields.mp (by simpa [Ty.imageRows, hx] using h)
          exact (Row.allApart_iff.mp (hρ id x hx).1).2 f hf row h

theorem Ty.Apart.subst {t : Ty} (ht : t.Apart A) (hA : A.Ordered) (hσ : ∀ id x, σ id = some x → x.Apart A)
    (hρ : ∀ id x, ρ id = some x → x.AllApart A ∧ x.Ordered ∧ A.row id = (x.value A).tail) :
    (t.subst σ ρ).Apart A := by
  intro row hrow
  rcases mem_rows_subst hrow with ⟨r, hr, rfl⟩ | ⟨v, _, hv⟩
  · exact (ht r hr).substRow hρ hA
  · exact apart_imageRows hσ hρ hv

theorem Row.AllApart.substRow {r : Row} (hr : r.AllApart A) (hA : A.Ordered) (hσ : ∀ id x, σ id = some x → x.Apart A)
    (hρ : ∀ id x, ρ id = some x → x.AllApart A ∧ x.Ordered ∧ A.row id = (x.value A).tail) :
    (Ty.substRow σ ρ r).AllApart A := by
  intro row hrow
  rcases Ty.mem_rows_substRow hrow with ⟨r', hr', rfl⟩ | ⟨v, _, hv⟩
  · exact (hr r' hr').substRow hρ hA
  · exact apart_imageRows hσ hρ hv

end Replacing

namespace Assignment

variable {s : Substitution}

theorem Models.chase_apart (hm : A.Models s) (hA : A.Ordered) (hs : s.Ordered)
    (hapart : s.All (Ty.Apart A) (Row.AllApart A)) (n : Nat) :
    (∀ t : Ty, t.Apart A → (s.chase n t).Apart A) ∧ ∀ r : Row, r.AllApart A → (s.chaseRow n r).AllApart A := by
  induction n with
  | zero => exact ⟨fun _ h => h, fun _ h => h⟩
  | succ n ih =>
      have hσ : ∀ id x, s.assigned (s.chase n) id = some x → x.Apart A := by
        intro id x hx
        obtain ⟨t, ht, rfl⟩ := Option.map_eq_some_iff.mp hx
        exact ih.1 t (hapart.1 id t ht)
      have hρ : ∀ id x, s.assignedRow (s.chaseRow n) id = some x →
          x.AllApart A ∧ x.Ordered ∧ A.row id = (x.value A).tail := by
        intro id x hx
        obtain ⟨r, hr, rfl⟩ := Option.map_eq_some_iff.mp hx
        refine ⟨ih.2 r (hapart.2 id r hr), (Substitution.All.chase_both substitutive_ordered hs n).2 r (hs.2 id r hr), ?_⟩
        rw [(hm.chase_both hA hs n).2 r (hs.2 id r hr)]
        exact hm.2 id r hr
      exact ⟨fun t ht => ht.subst hA hσ hρ, fun r hr => hr.substRow hA hσ hρ⟩

theorem Models.apply_apart (hm : A.Models s) (hA : A.Ordered) (hs : s.Ordered)
    (hapart : s.All (Ty.Apart A) (Row.AllApart A)) {t : Ty} (ht : t.Apart A) : (s.apply t).Apart A :=
  (hm.chase_apart hA hs hapart _).1 t ht

theorem Models.applyRow_apart (hm : A.Models s) (hA : A.Ordered) (hs : s.Ordered)
    (hapart : s.All (Ty.Apart A) (Row.AllApart A)) {r : Row} (hr : r.AllApart A) : (s.applyRow r).AllApart A :=
  (hm.chase_apart hA hs hapart _).2 r hr

end Assignment

theorem Row.heightFields_tail_le (hA : A.Ordered) (r : Row) :
    Ty.heightFields (A.tail r.rest).fields ≤ Ty.heightFields (r.value A).fields := by
  refine Ty.heightFields_le_iff.mpr fun f hf => ?_
  have hfind : (r.value A).get? f.1 = some f.2 := by
    rw [get?_value hA, (hA.tail _).find?_of_mem hf, Option.some_or]
  exact Ty.height_le_heightFields (OrderedMap.mem_of_find? hfind)

theorem Row.height_field_le (hA : A.Ordered) {r : Row} (hr : r.Apart A) (hasc : OrderedMap.Ascending r.fields)
    {f : Label × Ty} (hf : f ∈ r.fields) : (f.2.value A).height ≤ Ty.heightFields (r.value A).fields := by
  have hget : r.get? f.1 = some f.2 := hasc.find?_of_mem hf
  have hfind : (r.value A).get? f.1 = some (f.2.value A) := by
    rw [get?_value hA, hr.find?_tail hget, hget, Option.none_or, Option.map_some]
  exact Ty.height_le_heightFields (OrderedMap.mem_of_find? hfind)

namespace Assignment

def Uniform (A : Assignment) : Prop :=
  ∀ v, A.type v = A.type (.star v.id)

def measure (A : Assignment) : Var → Nat
  | .type id => 2 * (A.type (.star id)).height
  | .row id => 2 * Ty.heightFields (A.row id).fields + 1

def BoundedIn (A : Assignment) (r : Row) : Prop :=
  (∀ f ∈ r.fields, ∀ v ∈ f.2.vars, A.measure v < 2 * Ty.heightFields (r.value A).fields + 1) ∧
    ∀ w, r.rest = some w → A.measure (.row w) ≤ 2 * Ty.heightFields (r.value A).fields + 1

theorem BoundedIn.measure_lt {r : Row} (h : A.BoundedIn r) {v : Var} (hv : v ∈ r.vars) :
    A.measure v < 2 * (r.value A).height := by
  have hheight := (r.value A).height_eq
  obtain ⟨k, fs, rest⟩ := r
  rcases Row.mem_vars.mp hv with ⟨f, hf, hv⟩ | ⟨w, hw, rfl⟩
  · have := h.1 f hf v hv
    omega
  · have := h.2 w hw
    omega

theorem measure_both (hA : A.Ordered) (hU : A.Uniform) :
    (∀ t : Ty, t.Apart A → t.Ordered → ∀ v ∈ t.vars, A.measure v ≤ 2 * (t.value A).height ∧
        (t.isVar = false → A.measure v < 2 * (t.value A).height)) ∧
      ∀ r : Row, r.AllApart A → r.Ordered → A.BoundedIn r := by
  apply Ty.induct_rows
  case var =>
    intro v _ _ w hw
    obtain rfl := Ty.mem_vars_var.mp hw
    refine ⟨?_, fun h => by cases h⟩
    rw [Ty.value_var, hU v]
    exact Nat.le_refl _
  case con => simp
  case app =>
    intro f as hf has hapart hordered v hv
    rw [Ty.value_app]
    simp only [Ty.height]
    rcases Ty.mem_vars_app.mp hv with hv | ⟨a, ha, hv⟩
    · have := (hf (fun r hr => hapart r (Ty.mem_rows_app.mpr (.inl hr)))
        (fun r hr => hordered r (Ty.mem_rows_app.mpr (.inl hr))) v hv).1
      omega
    · have := (has a ha (fun r hr => hapart r (Ty.mem_rows_app.mpr (.inr ⟨a, ha, hr⟩)))
        (fun r hr => hordered r (Ty.mem_rows_app.mpr (.inr ⟨a, ha, hr⟩))) v hv).1
      have := Ty.height_le_heightAll (List.mem_map_of_mem (f := Ty.value A) ha)
      omega
  case list =>
    intro a ha hapart hordered v hv
    have := (ha hapart hordered v hv).1
    rw [Ty.value_list]
    simp only [Ty.height]
    omega
  case tuple =>
    intro as has hapart hordered v hv
    obtain ⟨a, ha, hv⟩ := Ty.mem_vars_tuple.mp hv
    have := (has a ha (fun r hr => hapart r (Ty.mem_rows_tuple.mpr ⟨a, ha, hr⟩))
      (fun r hr => hordered r (Ty.mem_rows_tuple.mpr ⟨a, ha, hr⟩)) v hv).1
    have := Ty.height_le_heightAll (List.mem_map_of_mem (f := Ty.value A) ha)
    rw [Ty.value_tuple]
    simp only [Ty.height]
    omega
  case fn =>
    intro ps e r hps he hr hapart hordered v hv
    rw [Ty.value_fn]
    simp only [Ty.height, Ty.heightEffects]
    rcases Ty.mem_vars_fn.mp hv with ⟨p, hp, hv⟩ | ⟨row, hrow, hv⟩ | hv
    · have := (hps p hp (fun r hr => hapart r (Ty.mem_rows_fn.mpr (.inl ⟨p, hp, hr⟩)))
        (fun r hr => hordered r (Ty.mem_rows_fn.mpr (.inl ⟨p, hp, hr⟩))) v hv).1
      have := Ty.height_le_heightAll (List.mem_map_of_mem (f := Ty.value A) hp)
      omega
    · have hbound := (he row hrow (fun r hr => hapart r (Ty.mem_rows_fn.mpr (.inr (.inl ⟨row, hrow, hr⟩))))
        fun r hr => hordered r (Ty.mem_rows_fn.mpr (.inr (.inl ⟨row, hrow, hr⟩)))).measure_lt hv
      cases hrow
      change A.measure v < 2 * Ty.heightRow ((Effects.toRow (some row)).value A) at hbound
      omega
    · have := (hr (fun r hr => hapart r (Ty.mem_rows_fn.mpr (.inr (.inr hr))))
        (fun r hr => hordered r (Ty.mem_rows_fn.mpr (.inr (.inr hr)))) v hv).1
      omega
  case record =>
    intro r hr hapart hordered v hv
    have hbound := (hr hapart hordered).measure_lt hv
    change A.measure v < 2 * Ty.heightRow (r.value A) at hbound
    rw [Ty.value_record]
    simp only [Ty.height]
    omega
  case row =>
    intro k fs rest hfs hapart hordered
    obtain ⟨hself, hfields⟩ := Row.allApart_iff.mp hapart
    obtain ⟨hasc, hordered⟩ := Row.ordered_iff.mp hordered
    constructor
    · intro f hf v hv
      have := (hfs f hf (hfields f hf) (hordered f hf) v hv).1
      have := Row.height_field_le hA hself hasc hf
      omega
    · rintro w rfl
      have := Row.heightFields_tail_le hA ⟨k, fs, some w⟩
      simp only [measure, Assignment.tail] at this ⊢
      omega

theorem measure_lt_of_depends {s : Substitution} (hm : A.Models s) (hA : A.Ordered) (hU : A.Uniform) (hs : s.Ordered)
    (hapart : s.All (Ty.Apart A) (Row.AllApart A)) {v w : Var} (h : s.Depends v w) :
    A.measure w < A.measure v ∨ (s.Stands v w ∧ A.measure w ≤ A.measure v) := by
  cases v with
  | type id =>
      obtain ⟨t, ht⟩ := h.binds
      rw [Substitution.Depends, Substitution.uses_type ht] at h
      obtain ⟨hle, hlt⟩ := (measure_both hA hU).1 t (hapart.1 id t ht) (hs.1 id t ht) w h
      rw [← hm.1 id t ht .star] at hle hlt
      cases t with
      | var u => exact .inr ⟨⟨u, ht, Ty.mem_vars_var.mp h⟩, hle⟩
      | _ => exact .inl (hlt rfl)
  | row id =>
      obtain ⟨r, hr⟩ := h.binds
      rw [Substitution.Depends, Substitution.uses_row hr] at h
      obtain ⟨hfields, hrest⟩ := (measure_both hA hU).2 r (hapart.2 id r hr) (hs.2 id r hr)
      have hrow : (r.value A).fields = (A.row id).fields := (congrArg Tail.fields (hm.2 id r hr)).symm
      rw [hrow] at hfields hrest
      obtain ⟨k, fs, rest⟩ := r
      rcases Row.mem_vars.mp h with ⟨f, hf, hw⟩ | ⟨u, hu, rfl⟩
      · exact .inl (hfields f hf w hw)
      · exact .inr ⟨⟨_, u, hr, hu, rfl⟩, hrest u hu⟩

theorem Models.acyclic {s : Substitution} (hm : A.Models s) (hA : A.Ordered) (hU : A.Uniform) (hs : s.Ordered)
    (hapart : s.All (Ty.Apart A) (Row.AllApart A)) (hchain : s.Chainless) : s.Acyclic := by
  have hpath : ∀ v w, TransGen s.Depends v w →
      A.measure w < A.measure v ∨ (TransGen s.Stands v w ∧ A.measure w ≤ A.measure v) := by
    intro v w hvw
    induction hvw with
    | single hstep =>
        rcases measure_lt_of_depends hm hA hU hs hapart hstep with hlt | ⟨hstands, hle⟩
        · exact .inl hlt
        · exact .inr ⟨.single hstands, hle⟩
    | tail _ hstep ih =>
        rcases measure_lt_of_depends hm hA hU hs hapart hstep with hlt | ⟨hstands, hle⟩
        · exact .inl (by omega)
        · rcases ih with hlt | ⟨hpath, hle'⟩
          · exact .inl (by omega)
          · exact .inr ⟨hpath.tail hstands, by omega⟩
  intro v hv
  rcases hpath v v hv with hlt | ⟨hstands, _⟩
  · exact Nat.lt_irrefl _ hlt
  · exact hchain v hstands

end Assignment

end RowTyping
