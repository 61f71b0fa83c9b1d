import RowTyping.Proofs.Apart
import RowTyping.Proofs.Growth
import RowTyping.Proofs.Layout

namespace RowTyping

open Relation

variable {φ : Layout} {M : Assignment → Prop}

namespace Substitution

variable {s : Substitution}

theorem eq_of_reach {v w : Var} (h : ReflTransGen s.Depends v w) (hv : ¬ s.Binds v) : v = w := by
  rcases ReflTransGen.cases_head h with heq | ⟨x, hstep, _⟩
  · exact heq
  · exact absurd hstep.binds hv

end Substitution

def Layout.Plain (φ : Layout) : Prop :=
  ∀ t, φ.held t → t = .unit

theorem OrderedMap.mem_merge_left {m n : OrderedMap Label Ty} (hm : m.Ascending) (hn : n.Ascending) {f : Label × Ty}
    (hf : f ∈ m) (hnot : f.1 ∉ n.keys) : f ∈ m.merge n := by
  have hfind : (m.merge n).find? f.1 = some f.2 := by
    rw [find?_merge _ hn, find?_eq_none_iff.mpr hnot, Option.none_or, hm.find?_of_mem hf]
  exact mem_of_find? hfind

theorem OrderedMap.mem_merge_right {m n : OrderedMap Label Ty} (hn : n.Ascending) {f : Label × Ty} (hf : f ∈ n) :
    f ∈ m.merge n := by
  have hfind : (m.merge n).find? f.1 = some f.2 := by rw [find?_merge _ hn, hn.find?_of_mem hf, Option.some_or]
  exact mem_of_find? hfind

section Replacing

variable {σ : TypeVarId → Option Ty} {ρ : RowVarId → Option Row}

theorem Row.Conforms.disjoint {before : Option Fields} {r x : Row} (h : r.Conforms φ M before) (hkind : φ.tracks r.kind = true)
    {q : RowVarId} (hq : r.rest = some q) (hx : x.Conforms φ M (φ.fields q)) : ∀ l ∈ r.labels, l ∉ x.labels := by
  cases h with
  | untracked hne => rw [hne] at hkind; cases hkind
  | tracked _ _ hrest =>
      obtain ⟨fs, hfs, hsame⟩ := hrest q hq
      rw [hfs] at hx
      cases hx with
      | tracked _ hlabels _ =>
          intro l hl hmem
          exact (Fields.join_eq_none.mp ((hsame.eq_none_iff l).mpr (hlabels l hmem))).1 hl

theorem Row.Conforms.get?_substRow (hkeeps : Keeps φ M σ ρ) {before : Option Fields} {r : Row} (h : r.Conforms φ M before)
    (hkind : φ.tracks r.kind = true) {l : Label} {t : Ty} (hget : r.get? l = some t) :
    (Ty.substRow σ ρ r).get? l = some (t.subst σ ρ) := by
  have hl : l ∈ r.labels := OrderedMap.mem_keys_of_find? hget
  have htail : (r.rest.bind ρ).bind (·.get? l) = none := by
    cases hx : r.rest.bind ρ with
    | none => rfl
    | some x =>
        obtain ⟨q, hq, hρ⟩ := Option.bind_eq_some_iff.mp hx
        exact OrderedMap.find?_eq_none_iff.mpr (h.disjoint hkind hq (hkeeps.rows q x hρ).1 l hl)
  obtain ⟨k, fs, rest⟩ := r
  rw [Row.get?_substRow hkeeps.ascending, htail, Option.none_or, show OrderedMap.find? fs l = some t from hget, Option.map_some]

theorem mem_vars_subst_of_image (hkeeps : Keeps φ M σ ρ) (hφ : φ.Plain) {v w : Var} (hw : w ∈ Ty.image σ ρ v) :
    (∀ t : Ty, t.Conforms φ M → t.Ordered → v ∈ t.vars → w ∈ (t.subst σ ρ).vars) ∧
      ∀ r : Row, ∀ before, r.ConformsIn φ M before → r.Ordered → v ∈ r.vars → w ∈ (Ty.substRow σ ρ r).vars := by
  apply Ty.induct_rows
  case var =>
    intro u _ _ hv
    obtain rfl := Ty.mem_vars_var.mp hv
    cases hu : σ u.id with
    | none => simpa [Ty.image, hu] using hw
    | some x => simpa [Ty.image, hu] using hw
  case con => exact fun _ _ _ hv => absurd hv Ty.mem_vars_con
  case app =>
    intro f as hf has hconf hord hv
    rw [Ty.subst_app, Ty.mem_vars_app]
    rcases Ty.mem_vars_app.mp hv with hv | ⟨a, ha, hv⟩
    · exact .inl (hf (fun r hr => hconf r (Ty.mem_rows_app.mpr (.inl hr)))
        (fun r hr => hord r (Ty.mem_rows_app.mpr (.inl hr))) hv)
    · exact .inr ⟨_, List.mem_map_of_mem ha, has a ha (fun r hr => hconf r (Ty.mem_rows_app.mpr (.inr ⟨a, ha, hr⟩)))
        (fun r hr => hord r (Ty.mem_rows_app.mpr (.inr ⟨a, ha, hr⟩))) hv⟩
  case list => exact fun _ ha hconf hord hv => ha hconf hord hv
  case tuple =>
    intro as has hconf hord hv
    obtain ⟨a, ha, hv⟩ := Ty.mem_vars_tuple.mp hv
    rw [Ty.subst_tuple, Ty.mem_vars_tuple]
    exact ⟨_, List.mem_map_of_mem ha, has a ha (fun r hr => hconf r (Ty.mem_rows_tuple.mpr ⟨a, ha, hr⟩))
      (fun r hr => hord r (Ty.mem_rows_tuple.mpr ⟨a, ha, hr⟩)) hv⟩
  case fn =>
    intro ps e t hps he ht hconf hord hv
    rw [Ty.subst_fn, Ty.mem_vars_fn]
    rcases Ty.mem_vars_fn.mp hv with ⟨p, hp, hv⟩ | ⟨row, hrow, hvr⟩ | hv
    · exact .inl ⟨_, List.mem_map_of_mem hp, hps p hp (fun r hr => hconf r (Ty.mem_rows_fn.mpr (.inl ⟨p, hp, hr⟩)))
        (fun r hr => hord r (Ty.mem_rows_fn.mpr (.inl ⟨p, hp, hr⟩))) hv⟩
    · cases hrow
      have hlatent := Row.conforms_start_iff.mp fun r hr => hconf r (Ty.mem_rows_fn.mpr (.inr (.inl ⟨row, rfl, hr⟩)))
      exact .inr (.inl ⟨_, rfl, he row rfl _ hlatent
        (fun r hr => hord r (Ty.mem_rows_fn.mpr (.inr (.inl ⟨row, rfl, hr⟩)))) hvr⟩)
    · exact .inr (.inr (ht (fun r hr => hconf r (Ty.mem_rows_fn.mpr (.inr (.inr hr))))
        (fun r hr => hord r (Ty.mem_rows_fn.mpr (.inr (.inr hr)))) hv))
  case record => exact fun _ hr hconf hord hv => hr _ (Row.conforms_start_iff.mp hconf) hord hv
  case row =>
    intro k fs rest hfs before hconf hord hv
    obtain ⟨hasc, hord⟩ := Row.ordered_iff.mp hord
    have hmapped : OrderedMap.Ascending (OrderedMap.mapValues (Ty.subst σ ρ) fs) := OrderedMap.Ascending.mapValues _ hasc
    rcases Row.mem_vars.mp hv with ⟨f, hf, hvf⟩ | ⟨q, rfl, rfl⟩
    · have hmem : w ∈ (f.2.subst σ ρ).vars := hfs f hf (hconf.2 f hf) (hord f hf) hvf
      have hfield : (f.1, f.2.subst σ ρ) ∈ OrderedMap.mapValues (Ty.subst σ ρ) fs :=
        List.mem_map_of_mem (f := fun e : Label × Ty => (e.1, e.2.subst σ ρ)) hf
      cases htail : rest.bind ρ with
      | none =>
          rw [Ty.substRow_none_tail htail]
          exact Row.mem_vars.mpr (.inl ⟨_, hfield, hmem⟩)
      | some x =>
          obtain ⟨q, rfl, hx⟩ := Option.bind_eq_some_iff.mp htail
          rw [Ty.substRow_some_tail htail]
          have hkind : φ.tracks k = true := by
            cases hconf.1 with
            | untracked _ hheld _ =>
                rw [hφ _ (hheld f hf)] at hvf
                exact absurd hvf Ty.mem_vars_con
            | tracked hkind => exact hkind
          have hnot := hconf.1.disjoint hkind rfl (hkeeps.rows q x hx).1 f.1 (OrderedMap.mem_keys_of_mem hf)
          exact Row.mem_vars.mpr (.inl ⟨_, OrderedMap.mem_merge_left hmapped (hkeeps.ascending q x hx) hfield hnot, hmem⟩)
    · cases hx : ρ q with
      | none =>
          rw [Ty.substRow_free hx]
          exact Row.mem_vars.mpr (.inr ⟨q, rfl, by simpa [Ty.image, hx] using hw⟩)
      | some x =>
          rw [Ty.substRow_bound hx]
          obtain ⟨k', gs, rest'⟩ := x
          rcases Row.mem_vars.mp (by simpa [Ty.image, hx] using hw) with ⟨g, hg, hw⟩ | ⟨q', hq', rfl⟩
          · exact Row.mem_vars.mpr (.inl ⟨g, OrderedMap.mem_merge_right (hkeeps.ascending q _ hx) hg, hw⟩)
          · exact Row.mem_vars.mpr (.inr ⟨q', hq', rfl⟩)

end Replacing

namespace Substitution

theorem Conforms.get?_applyRow {s : Substitution} (h : s.Conforms φ M) (hM : ∀ A, M A → s.Admits A) (hs : s.Ordered)
    {before : Option Fields} {r : Row} (hr : r.Conforms φ M before) (hkind : φ.tracks r.kind = true) {l : Label} {t : Ty}
    (hget : r.get? l = some t) : (s.applyRow r).get? l = some (s.apply t) := by
  rw [Substitution.applyRow, Substitution.apply]
  cases s.depth with
  | zero => exact hget
  | succ n => exact hr.get?_substRow (h.keeps hM hs (h.chase_both hM hs n)) hkind hget

section Applied

variable {s : Substitution} (hacyclic : s.Acyclic) (hs : s.Ordered) (hconf : s.Conforms φ M)
  (hM : ∀ A, M A → s.Admits A) (hφ : φ.Plain)

include hacyclic hs hconf hM hφ

theorem mem_image_of_reach {v w : Var} (h : ReflTransGen s.Depends v w) (hw : ¬ s.Binds w) :
    w ∈ Ty.image (s.assigned s.apply) (s.assignedRow s.applyRow) v := by
  have hkeeps : Keeps φ M (s.assigned s.apply) (s.assignedRow s.applyRow) := hconf.keeps hM hs (hconf.chase_both hM hs _)
  induction h using ReflTransGen.head_induction_on with
  | refl =>
      cases w with
      | type id => simp [Ty.image, assigned, not_binds_type.mp hw]
      | row id => simp [Ty.image, assignedRow, not_binds_row.mp hw]
  | @head v x hstep _ ih =>
      have himage := mem_vars_subst_of_image hkeeps hφ ih
      cases v with
      | type id =>
          obtain ⟨t, ht⟩ := hstep.binds
          rw [Depends, uses_type ht] at hstep
          have hmem := himage.1 t (hconf.1 id t ht) (hs.1 id t ht) hstep
          rw [← hacyclic.apply_eq] at hmem
          simpa [Ty.image, assigned, ht] using hmem
      | row id =>
          obtain ⟨r, hr⟩ := hstep.binds
          rw [Depends, uses_row hr] at hstep
          have hmem := himage.2 r _ (hconf.2 id r hr) (hs.2 id r hr) hstep
          rw [← hacyclic.applyRow_eq] at hmem
          simpa [Ty.image, assignedRow, hr] using hmem

theorem mem_vars_apply {t : Ty} (ht : t.Ordered) (htc : t.Conforms φ M) {v w : Var} (hv : v ∈ t.vars)
    (h : ReflTransGen s.Depends v w) (hw : ¬ s.Binds w) : w ∈ (s.apply t).vars := by
  have hkeeps : Keeps φ M (s.assigned s.apply) (s.assignedRow s.applyRow) := hconf.keeps hM hs (hconf.chase_both hM hs _)
  rw [hacyclic.apply_eq]
  exact (mem_vars_subst_of_image hkeeps hφ (mem_image_of_reach hacyclic hs hconf hM hφ h hw)).1 t htc ht hv

end Applied

end Substitution

section Heights

variable {A : Assignment}

def Assignment.RespectsAt (A : Assignment) (φ : Layout) (q : RowVarId) : Prop :=
  ∀ fs, φ.fields q = some fs → ∀ l ∈ OrderedMap.keys (A.row q).fields, fs l = none

def Assignment.Respects (A : Assignment) (φ : Layout) : Prop :=
  ∀ q, A.RespectsAt φ q

theorem Row.Conforms.apart_of_rest {before : Option Fields} {r : Row} (h : r.Conforms φ M before)
    (hkind : φ.tracks r.kind = true) (hA : ∀ q, r.rest = some q → A.RespectsAt φ q) : r.Apart A := by
  cases h with
  | untracked hne => rw [hne] at hkind; cases hkind
  | tracked _ _ hrest =>
      intro l hl hmem
      cases hq : r.rest with
      | none =>
          rw [hq] at hmem
          cases hmem
      | some q =>
          rw [hq] at hmem
          obtain ⟨fs, hfs, hsame⟩ := hrest q hq
          exact (Fields.join_eq_none.mp ((hsame.eq_none_iff l).mpr (hA q hq fs hfs l hmem))).1 hl

theorem Row.Conforms.apart {before : Option Fields} {r : Row} (h : r.Conforms φ M before) (hkind : φ.tracks r.kind = true)
    (hA : A.Respects φ) : r.Apart A :=
  h.apart_of_rest hkind fun q _ => hA q

theorem Substitution.Conforms.respects {s : Substitution} (hconf : s.Conforms φ M) (hM : ∀ A, M A → s.Admits A)
    (hs : s.Ordered) : s.assignment.Respects φ := by
  intro q fs hfs l hl
  have hbare : (variableRow q).Ordered := Row.ordered_iff.mpr ⟨List.Pairwise.nil, by simp [variableRow]⟩
  have hin : (variableRow q).ConformsIn φ M (some fs) := by
    refine ⟨.tracked φ.tracks_records (List.forall_mem_nil _) ?_, List.forall_mem_nil _⟩
    rintro w ⟨⟩
    have hjoin : fs.join (variableRow q) = fs := Fields.join_of_empty rfl
    exact ⟨fs, hfs, hjoin ▸ .refl fs⟩
  have happlied := (hconf.applyRow hM hs hbare hin).1
  have hkeys : OrderedMap.keys (s.assignment.row q).fields = (s.applyRow (variableRow q)).labels := by
    simp [assignment, Row.explicit_eq, Row.tail, Row.labels]
  rw [hkeys] at hl
  cases happlied with
  | tracked _ hlabels => exact hlabels l hl

-- A row of effects holds nothing but units, and a label that its tail has as well would hide nothing of interest.
theorem height_of_mem_rows (hA : A.Respects φ) (hord : A.Ordered) (hφ : φ.Plain) {row : Row} (hkind : φ.tracks row.kind = true) :
    (∀ t : Ty, t.Ordered → t.Conforms φ M → row ∈ t.rows → (row.value A).height < (t.value A).height) ∧
      ∀ r : Row, ∀ before, r.Ordered → r.ConformsIn φ M before → row ∈ r.rows → (row.value A).height ≤ (r.value A).height := by
  apply Ty.induct_rows
  case var => exact fun _ _ _ h => absurd h Ty.mem_rows_var
  case con => exact fun _ _ _ h => absurd h Ty.mem_rows_con
  case app =>
    intro f as hf has hordered hconf hmem
    rw [Ty.value_app, Ty.height]
    rcases Ty.mem_rows_app.mp hmem with hmem | ⟨a, ha, hmem⟩
    · have := hf (fun r hr => hordered r (Ty.mem_rows_app.mpr (.inl hr)))
        (fun r hr => hconf r (Ty.mem_rows_app.mpr (.inl hr))) hmem
      omega
    · have := has a ha (fun r hr => hordered r (Ty.mem_rows_app.mpr (.inr ⟨a, ha, hr⟩)))
        (fun r hr => hconf r (Ty.mem_rows_app.mpr (.inr ⟨a, ha, hr⟩))) hmem
      have := Ty.height_le_heightAll (List.mem_map_of_mem (f := Ty.value A) ha)
      omega
  case list =>
    intro a ha hordered hconf hmem
    have := ha hordered hconf hmem
    rw [Ty.value_list, Ty.height]
    omega
  case tuple =>
    intro as has hordered hconf hmem
    obtain ⟨a, ha, hmem⟩ := Ty.mem_rows_tuple.mp hmem
    have := has a ha (fun r hr => hordered r (Ty.mem_rows_tuple.mpr ⟨a, ha, hr⟩))
      (fun r hr => hconf r (Ty.mem_rows_tuple.mpr ⟨a, ha, hr⟩)) hmem
    have := Ty.height_le_heightAll (List.mem_map_of_mem (f := Ty.value A) ha)
    rw [Ty.value_tuple, Ty.height]
    omega
  case fn =>
    intro ps e t hps he ht hordered hconf hmem
    rw [Ty.value_fn, Ty.height, Ty.heightEffects]
    rcases Ty.mem_rows_fn.mp hmem with ⟨p, hp, hmem⟩ | ⟨r, hr, hmem⟩ | hmem
    · have := hps p hp (fun r hr => hordered r (Ty.mem_rows_fn.mpr (.inl ⟨p, hp, hr⟩)))
        (fun r hr => hconf r (Ty.mem_rows_fn.mpr (.inl ⟨p, hp, hr⟩))) hmem
      have := Ty.height_le_heightAll (List.mem_map_of_mem (f := Ty.value A) hp)
      omega
    · have hlatent := Row.conforms_start_iff.mp fun r' hr' => hconf r' (Ty.mem_rows_fn.mpr (.inr (.inl ⟨r, hr, hr'⟩)))
      have := he r hr _ (fun r' hr' => hordered r' (Ty.mem_rows_fn.mpr (.inr (.inl ⟨r, hr, hr'⟩)))) hlatent hmem
      cases hr
      change Ty.heightRow (row.value A) ≤ Ty.heightRow ((Effects.toRow (some r)).value A) at this
      change Ty.heightRow (row.value A) < _
      omega
    · have := ht (fun r hr => hordered r (Ty.mem_rows_fn.mpr (.inr (.inr hr))))
        (fun r hr => hconf r (Ty.mem_rows_fn.mpr (.inr (.inr hr)))) hmem
      omega
  case record =>
    intro r hr hordered hconf hmem
    have := hr _ hordered (Row.conforms_start_iff.mp hconf) hmem
    rw [Ty.value_record, Ty.height]
    exact Nat.lt_succ_of_le this
  case row =>
    intro k fs rest hfs before hordered hconf hmem
    obtain ⟨hasc, hordered⟩ := Row.ordered_iff.mp hordered
    rcases Row.mem_rows.mp hmem with rfl | ⟨f, hf, hmem⟩
    · exact Nat.le_refl _
    · have htracked : φ.tracks k = true := by
        cases hconf.1 with
        | untracked _ hheld _ =>
            rw [hφ _ (hheld f hf)] at hmem
            exact absurd hmem Ty.mem_rows_con
        | tracked hkind => exact hkind
      have := hfs f hf (hordered f hf) (hconf.2 f hf) hmem
      have := Row.height_field_le hord (hconf.1.apart htracked hA) hasc hf
      rw [(Row.value A ⟨k, fs, rest⟩).height_eq]
      omega

end Heights

end RowTyping
