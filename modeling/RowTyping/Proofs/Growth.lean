import RowTyping.Proofs.Binding

namespace RowTyping

open Relation

theorem Row.explicit_eq (r : Row) : r.explicit = ⟨r.kind, OrderedMap.mapValues Ty.explicit r.fields, r.rest⟩ := by
  obtain ⟨k, fs, rest⟩ := r
  cases rest with
  | none => exact value_closed k fs
  | some r => exact value_opened k fs r

namespace Ty

theorem heightAll_map {f : Ty → Ty} {ts : List Ty} (h : ∀ t ∈ ts, (f t).height = t.height) :
    heightAll (ts.map f) = heightAll ts := by
  induction ts with
  | nil => rfl
  | cons t ts ih =>
      obtain ⟨ht, hts⟩ := List.forall_mem_cons.mp h
      change max (f t).height (heightAll (ts.map f)) = max t.height (heightAll ts)
      rw [ht, ih hts]

theorem heightFields_mapValues {f : Ty → Ty} {fs : List (Label × Ty)} (h : ∀ e ∈ fs, (f e.2).height = e.2.height) :
    heightFields (OrderedMap.mapValues f fs) = heightFields fs := by
  induction fs with
  | nil => rfl
  | cons e fs ih =>
      obtain ⟨he, hfs⟩ := List.forall_mem_cons.mp h
      change max (f e.2).height (heightFields (OrderedMap.mapValues f fs)) = max e.2.height (heightFields fs)
      rw [he, ih hfs]

-- The empty row that stands for purity is no higher than the result of the function.
theorem height_explicit_both : (∀ t : Ty, t.explicit.height = t.height) ∧ ∀ r : Row, r.explicit.height = r.height := by
  apply Ty.induct_rows
  case var => exact fun _ => rfl
  case con => exact fun _ => rfl
  case app =>
    intro f as hf has
    rw [explicit, value_app]
    change max f.explicit.height (heightAll (as.map explicit)) + 1 = max f.height (heightAll as) + 1
    rw [hf, heightAll_map has]
  case list =>
    intro a ha
    exact congrArg (· + 1) ha
  case tuple =>
    intro as has
    rw [explicit, value_tuple]
    exact congrArg (· + 1) (heightAll_map has)
  case fn =>
    intro ps e r hps he hr
    have hpos := r.height_pos
    have heffects : max ((Effects.toRow e).explicit).height r.height = max (heightEffects e) r.height := by
      cases e with
      | none => exact (Nat.max_eq_right hpos).trans (Nat.max_eq_right (Nat.zero_le _)).symm
      | some row => exact congrArg (max · r.height) (he row rfl)
    rw [explicit, value_fn]
    change max (heightAll (ps.map explicit)) (max ((Effects.toRow e).explicit).height r.explicit.height) + 1 =
      max (heightAll ps) (max (heightEffects e) r.height) + 1
    rw [heightAll_map hps, hr, heffects]
  case record =>
    intro r hr
    rw [explicit, value_record]
    exact congrArg (· + 1) hr
  case row =>
    intro k fs rest hfs
    rw [Row.height_eq, Row.height_eq, Row.explicit_eq, heightFields_mapValues hfs]

theorem exists_mem_map {α β : Type} {f : α → β} {l : List α} {p : β → Prop} :
    (∃ b ∈ l.map f, p b) ↔ ∃ a ∈ l, p (f a) := by
  simp

theorem mem_vars_explicit_both {w : Var} :
    (∀ t : Ty, w ∈ t.explicit.vars ↔ w ∈ t.vars) ∧ ∀ r : Row, w ∈ r.explicit.vars ↔ w ∈ r.vars := by
  apply Ty.induct_rows
  case var => exact fun _ => Iff.rfl
  case con => exact fun _ => Iff.rfl
  case app =>
    intro f as hf has
    rw [explicit, value_app, mem_vars_app, mem_vars_app, exists_mem_map]
    exact or_congr hf (exists_congr fun a => and_congr_right (has a))
  case list => exact fun _ ha => ha
  case tuple =>
    intro as has
    rw [explicit, value_tuple, mem_vars_tuple, mem_vars_tuple, exists_mem_map]
    exact exists_congr fun a => and_congr_right (has a)
  case fn =>
    intro ps e r hps he hr
    have heffects : (∃ row ∈ some (Effects.toRow e).explicit, w ∈ row.vars) ↔ ∃ row ∈ e, w ∈ row.vars := by
      cases e with
      | none =>
          constructor
          · rintro ⟨_, ⟨⟩, ⟨⟩⟩
          · rintro ⟨_, ⟨⟩, _⟩
      | some row =>
          simp only [Option.mem_some_iff, exists_eq_left']
          exact he row rfl
    rw [explicit, value_fn, mem_vars_fn, mem_vars_fn, exists_mem_map]
    exact or_congr (exists_congr fun p => and_congr_right (hps p)) (or_congr heffects hr)
  case record => exact fun _ hr => hr
  case row =>
    intro k fs rest hfs
    rw [Row.explicit_eq, Row.mem_vars, Row.mem_vars, OrderedMap.mapValues, exists_mem_map]
    exact or_congr_left (exists_congr fun f => and_congr_right (hfs f))

end Ty

section Values

variable {B : Assignment} {P : Var → Prop} {c : Nat}

def Assignment.Confined (B : Assignment) (P : Var → Prop) (c : Nat) : Occurrence → Prop
  | .type v => (∀ w ∈ (B.type v).vars, P w) ∧ (B.type v).height ≤ c + 1
  | .tail r _ =>
      (∀ f ∈ (B.row r).fields, (∀ w ∈ f.2.vars, P w) ∧ f.2.height ≤ c) ∧ ∀ w, (B.row r).rest = some w → P (.row w)

theorem value_confined_both :
    (∀ t : Ty, (∀ o ∈ t.occurrences, B.Confined P c o) →
        (∀ w ∈ (t.value B).vars, P w) ∧ (t.value B).height ≤ t.height + c) ∧
      ∀ r : Row, (∀ o ∈ r.occurrences, B.Confined P c o) →
        (∀ w ∈ (r.value B).vars, P w) ∧ (r.value B).height ≤ r.height + c := by
  have all {ts : List Ty} (h : ∀ t ∈ ts, (t.value B).height ≤ t.height + c) :
      Ty.heightAll (ts.map (Ty.value B)) ≤ Ty.heightAll ts + c := by
    refine Ty.heightAll_le_iff.mpr (List.forall_mem_map.mpr fun t ht => ?_)
    have := Ty.height_le_heightAll ht
    have := h t ht
    omega
  apply Ty.induct_rows
  case var =>
    intro v h
    obtain ⟨hvars, hheight⟩ := h (.type v) (Ty.mem_occurrences_var.mpr rfl)
    rw [Ty.value_var]
    exact ⟨hvars, by simp only [Ty.height]; omega⟩
  case con =>
    intro name _
    rw [Ty.value_con]
    exact ⟨fun w hw => absurd hw Ty.mem_vars_con, Nat.le_add_right _ _⟩
  case app =>
    intro f as hf has h
    have hf := hf fun o ho => h o (Ty.mem_occurrences_app.mpr (.inl ho))
    have has := fun a ha => has a ha fun o ho => h o (Ty.mem_occurrences_app.mpr (.inr ⟨a, ha, ho⟩))
    have := all fun a ha => (has a ha).2
    rw [Ty.value_app]
    refine ⟨fun w hw => ?_, by simp only [Ty.height]; omega⟩
    rw [Ty.mem_vars_app, Ty.exists_mem_map] at hw
    rcases hw with hw | ⟨a, ha, hw⟩
    · exact hf.1 w hw
    · exact (has a ha).1 w hw
  case list =>
    intro a ha h
    have ha := ha fun o ho => h o (Ty.mem_occurrences_list.mpr ho)
    rw [Ty.value_list]
    exact ⟨ha.1, by simp only [Ty.height]; omega⟩
  case tuple =>
    intro as has h
    have has := fun a ha => has a ha fun o ho => h o (Ty.mem_occurrences_tuple.mpr ⟨a, ha, ho⟩)
    have := all fun a ha => (has a ha).2
    rw [Ty.value_tuple]
    refine ⟨fun w hw => ?_, by simp only [Ty.height]; omega⟩
    rw [Ty.mem_vars_tuple, Ty.exists_mem_map] at hw
    obtain ⟨a, ha, hw⟩ := hw
    exact (has a ha).1 w hw
  case fn =>
    intro ps e r hps he hr h
    have hps := fun p hp => hps p hp fun o ho => h o (Ty.mem_occurrences_fn.mpr (.inl ⟨p, hp, ho⟩))
    have hr := hr fun o ho => h o (Ty.mem_occurrences_fn.mpr (.inr (.inr ho)))
    have heffects : (∀ w ∈ ((Effects.toRow e).value B).vars, P w) ∧
        ((Effects.toRow e).value B).height ≤ max (Ty.heightEffects e) r.height + c := by
      cases e with
      | none =>
          have := r.height_pos
          exact ⟨fun w hw => absurd hw List.not_mem_nil, by change 1 ≤ _; omega⟩
      | some row =>
          have hrow := he row rfl fun o ho => h o (Ty.mem_occurrences_fn.mpr (.inr (.inl ⟨row, rfl, ho⟩)))
          have := Nat.le_max_left row.height r.height
          exact ⟨hrow.1, Nat.le_trans hrow.2 (Nat.add_le_add_right this c)⟩
    have := all fun p hp => (hps p hp).2
    rw [Ty.value_fn]
    constructor
    · intro w hw
      rw [Ty.mem_vars_fn, Ty.exists_mem_map] at hw
      rcases hw with ⟨p, hp, hw⟩ | ⟨row, hrow, hw⟩ | hw
      · exact (hps p hp).1 w hw
      · cases hrow
        exact heffects.1 w hw
      · exact hr.1 w hw
    · have heights : Ty.heightRow ((Effects.toRow e).value B) ≤ max (Ty.heightEffects e) r.height + c := heffects.2
      simp only [Ty.height, Ty.heightEffects]
      omega
  case record =>
    intro r hr h
    have hr := hr fun o ho => h o (Ty.mem_occurrences_record.mpr ho)
    have hheight : Ty.heightRow (r.value B) ≤ Ty.heightRow r + c := hr.2
    rw [Ty.value_record]
    exact ⟨hr.1, by simp only [Ty.height]; omega⟩
  case row =>
    intro k fs rest hfs h
    have hfs := fun f hf => hfs f hf fun o ho => h o (Row.mem_occurrences.mpr (.inl ⟨f, hf, ho⟩))
    have htail : (∀ f ∈ (B.tail rest).fields, (∀ w ∈ f.2.vars, P w) ∧ f.2.height ≤ c) ∧
        ∀ w, (B.tail rest).rest = some w → P (.row w) := by
      cases rest with
      | none => exact ⟨fun f hf => (List.not_mem_nil hf).elim, fun w hw => by cases hw⟩
      | some r => exact h (.tail r k) (Row.mem_occurrences.mpr (.inr ⟨r, rfl, rfl⟩))
    have field : ∀ f ∈ OrderedMap.merge (OrderedMap.mapValues (Ty.value B) fs) (B.tail rest).fields,
        (∀ w ∈ f.2.vars, P w) ∧ f.2.height ≤ Ty.heightFields fs + c := by
      intro f hf
      rcases OrderedMap.mem_merge hf with hf | hf
      · obtain ⟨g, hg, rfl⟩ := List.mem_map.mp hf
        have := Ty.height_le_heightFields hg
        exact ⟨(hfs g hg).1, Nat.le_trans (hfs g hg).2 (Nat.add_le_add_right this c)⟩
      · exact ⟨(htail.1 f hf).1, Nat.le_trans (htail.1 f hf).2 (Nat.le_add_left _ _)⟩
    have hheight := Ty.heightFields_le_iff.mpr fun f hf => (field f hf).2
    rw [Row.value_eq]
    constructor
    · intro w hw
      rcases Row.mem_vars.mp hw with ⟨f, hf, hw⟩ | ⟨v, hv, rfl⟩
      · exact (field f hf).1 w hw
      · exact htail.2 v hv
    · simp only [Row.height_eq]
      omega

theorem Ty.value_confined {t : Ty} (h : ∀ o ∈ t.occurrences, B.Confined P c o) :
    (∀ w ∈ (t.value B).vars, P w) ∧ (t.value B).height ≤ t.height + c :=
  value_confined_both.1 t h

end Values

namespace Substitution

variable {s s' : Substitution} {V : Finset Var} {m c : Nat}

def Bounded (s : Substitution) (V : Finset Var) (m : Nat) (t : Ty) : Prop :=
  (∀ v ∈ (s.apply t).vars, v ∈ V) ∧ (s.apply t).height ≤ m

def BoundedRow (s : Substitution) (V : Finset Var) (m : Nat) (r : Row) : Prop :=
  (∀ v ∈ (s.applyRow r).vars, v ∈ V) ∧ (s.applyRow r).height ≤ m

theorem bounded_record {r : Row} : s.Bounded V (m + 1) (.record r) ↔ s.BoundedRow V m r := by
  rw [Bounded, apply_record, BoundedRow]
  exact and_congr Iff.rfl Nat.succ_le_succ_iff

theorem Bounded.mono {W : Finset Var} {n : Nat} {t : Ty} (h : s.Bounded V m t) (hW : V ⊆ W) (hn : m ≤ n) :
    s.Bounded W n t :=
  ⟨fun v hv => hW (h.1 v hv), Nat.le_trans h.2 hn⟩

theorem Acyclic.boundedRow_iff (h : s.Acyclic) {r : Row} (hrest : ∀ w, r.rest = some w → ¬ s.Binds (.row w)) :
    s.BoundedRow V (m + 1) r ↔
      (∀ f ∈ r.fields, s.Bounded V m f.2) ∧ ∀ w, r.rest = some w → Var.row w ∈ V := by
  obtain ⟨k, fs, rest⟩ := r
  have happly : s.applyRow ⟨k, fs, rest⟩ = ⟨k, OrderedMap.mapValues s.apply fs, rest⟩ := by
    have hnone : rest.bind (s.assignedRow s.applyRow) = none := by
      cases rest with
      | none => rfl
      | some w =>
          have := not_binds_row.mp (hrest w rfl)
          simp [assignedRow, this]
    have hfields : (fun t => t.subst (s.assigned s.apply) (s.assignedRow s.applyRow)) = s.apply :=
      funext fun t => (h.apply_eq t).symm
    rw [h.applyRow_eq, Ty.substRow_none_tail hnone]
    exact congrArg (fun f => (⟨k, OrderedMap.mapValues f fs, rest⟩ : Row)) hfields
  rw [BoundedRow, happly, Row.height_eq, Nat.succ_le_succ_iff, Ty.heightFields_le_iff, OrderedMap.mapValues,
    List.forall_mem_map]
  constructor
  · rintro ⟨hvars, hheight⟩
    exact ⟨fun f hf => ⟨fun v hv => hvars v (Row.mem_vars.mpr (.inl ⟨_, List.mem_map_of_mem hf, hv⟩)), hheight f hf⟩,
      fun w hw => hvars _ (Row.mem_vars.mpr (.inr ⟨w, hw, rfl⟩))⟩
  · rintro ⟨hfields, htail⟩
    refine ⟨fun v hv => ?_, fun f hf => (hfields f hf).2⟩
    rcases Row.mem_vars.mp hv with ⟨_, hmem, hv⟩ | ⟨w, hw, rfl⟩
    · obtain ⟨f, hf, rfl⟩ := List.mem_map.mp hmem
      exact (hfields f hf).1 v hv
    · exact htail w hw

theorem Acyclic.assignment_type_free (h : s.Acyclic) {v : TypeVar} (hv : ¬ s.Binds (.type v.id)) :
    s.assignment.type v = .var v := by
  rw [assignment_type, h.apply_free (not_binds_type.mp hv)]
  rfl

theorem assignment_row_free {w : RowVarId} (hw : ¬ s.Binds (.row w)) : s.assignment.row w = ⟨[], some w⟩ := by
  have hfree : s.applyRow (variableRow w) = variableRow w := by
    refine applyRow_of_free fun v hv => ?_
    rcases Row.mem_vars.mp hv with ⟨f, hf, _⟩ | ⟨x, hx, rfl⟩
    · cases hf
    · cases hx
      exact hw
  change (s.applyRow (variableRow w)).explicit.tail = _
  rw [hfree, Row.explicit_eq]
  rfl

-- The new bindings are read in what the old ones leave, where all variables but one stand for themselves.
theorem Bounded.of_extends {t : Ty} (h : s.Bounded V m t) (ht : t.Ordered) (hext : s'.Extends s) (hacyclic : s'.Acyclic)
    (hs' : s'.Ordered) {x : Var} (hx : ∀ y, s'.Binds y → y = x ∨ s.Binds y)
    (hbinding : ∀ o : Occurrence, o.var = x → s'.assignment.Confined (· ∈ V.erase x) c o) :
    s'.Bounded (V.erase x) (m + c) t := by
  have hvalue : (s'.apply t).explicit = (s.apply t).value s'.assignment := by
    rw [← hacyclic.value_assignment hs' ht]
    exact (((hacyclic.models hs').of_extends hext).apply (assignment_ordered hs') (hs'.of_extends hext) ht).symm
  have hconfined : ∀ o ∈ (s.apply t).occurrences, s'.assignment.Confined (· ∈ V.erase x) c o := by
    intro o ho
    by_cases hvar : o.var = x
    · exact hbinding o hvar
    have hmem : o.var ∈ (s.apply t).vars := Ty.mem_vars_iff.mpr ⟨o, ho, rfl⟩
    have hV : o.var ∈ V.erase x := Finset.mem_erase.mpr ⟨hvar, h.1 _ hmem⟩
    have hfree : ¬ s'.Binds o.var := fun hb =>
      (hx _ hb).elim hvar fun hb => (hext.acyclic hacyclic).free_of_apply hmem hb
    cases o with
    | type v =>
        rw [Assignment.Confined, hacyclic.assignment_type_free hfree]
        exact ⟨fun w hw => Ty.mem_vars_var.mp hw ▸ hV, Nat.le_add_left _ _⟩
    | tail r k =>
        rw [Assignment.Confined, assignment_row_free hfree]
        exact ⟨fun f hf => (List.not_mem_nil hf).elim, fun w hw => Option.some.inj hw ▸ hV⟩
  obtain ⟨hvars, hheight⟩ := Ty.value_confined hconfined
  rw [← hvalue] at hvars hheight
  rw [Ty.height_explicit_both.1] at hheight
  have := h.2
  exact ⟨fun v hv => hvars v (Ty.mem_vars_explicit_both.1 _ |>.mpr hv), by omega⟩

theorem Bounded.bindType {t u : Ty} {v : TypeVarId} (h : s.Bounded V m t) (ht : t.Ordered) (hacyclic : s.Acyclic)
    (hs : s.Ordered) (hv : ¬ s.Binds (.type v)) (hu : u.Ordered) (hself : Var.type v ∉ u.vars)
    (hfree : ∀ w ∈ u.vars, ¬ s.Binds w) (hV : ∀ w ∈ u.vars, w ∈ V) (hheight : u.height ≤ c + 1) :
    (s.bindType v u).Bounded (V.erase (.type v)) (m + c) t := by
  have hacyclic' := hacyclic.bindType hself hfree
  have hs' : (s.bindType v u).Ordered := All.bindType hs hu
  refine h.of_extends ht (extends_bindType hv) hacyclic' hs' (fun y => binds_bindType.mp) fun o ho => ?_
  cases o with
  | tail => cases ho
  | type w =>
      have hbound : (s.bindType v u).lookupType w.id = some u := by
        rw [lookupType_bindType, if_pos (Var.type.inj ho)]
      have hself' : ∀ x ∈ u.vars, x ≠ .type v := fun x hx heq => hself (heq ▸ hx)
      have hvalue : (s.bindType v u).assignment.type w = u.explicit := by
        rw [(hacyclic'.models hs').1 w.id u hbound w.kind, hacyclic'.value_assignment hs' hu, apply_of_free]
        exact fun x hx hb => (binds_bindType.mp hb).elim (hself' x hx) (hfree x hx)
      rw [Assignment.Confined, hvalue, Ty.height_explicit_both.1]
      refine ⟨fun x hx => ?_, hheight⟩
      have hx := (Ty.mem_vars_explicit_both.1 u).mp hx
      exact Finset.mem_erase.mpr ⟨hself' x hx, hV x hx⟩

theorem Bounded.bindRow {t : Ty} {r : RowVarId} {row : Row} (h : s.Bounded V m t) (ht : t.Ordered)
    (hacyclic : (s.bindRow r row).Acyclic) (hs : s.Ordered) (hr : ¬ s.Binds (.row r)) (hrow : row.Ordered)
    (hbounded : s.BoundedRow V (c + 1) row) : (s.bindRow r row).Bounded (V.erase (.row r)) (m + c) t := by
  have hext : (s.bindRow r row).Extends s := extends_bindRow hr
  have hacyclic₀ := hext.acyclic hacyclic
  have hs' : (s.bindRow r row).Ordered := All.bindRow hs hrow
  have hself : ∀ x ∈ (s.applyRow row).vars, x ≠ .row r := by
    rintro x hx rfl
    obtain ⟨w, hw, hpath⟩ := depends_of_applyRow hx
    exact (hacyclic₀.bindRow_iff hr row).mp hacyclic ⟨w, hw, hpath⟩
  refine h.of_extends ht hext hacyclic hs' (fun y => binds_bindRow.mp) fun o ho => ?_
  cases o with
  | type => cases ho
  | tail w k =>
      obtain rfl := Var.row.inj ho
      have hbound : (s.bindRow w row).lookupRow w = some row := by rw [lookupRow_bindRow, if_pos rfl]
      have hfree : ∀ x ∈ (s.applyRow row).vars, ¬ (s.bindRow w row).Binds x := fun x hx hb =>
        (binds_bindRow.mp hb).elim (hself x hx) (hacyclic₀.free_of_applyRow hx)
      have hmodels := hacyclic.models hs'
      have hvalue : (s.bindRow w row).assignment.row w = (s.applyRow row).explicit.tail := by
        rw [hmodels.2 w row hbound, ← (hmodels.of_extends hext).applyRow (assignment_ordered hs') hs hrow,
          hacyclic.value_assignment_row hs' (hs.applyRow hrow), applyRow_of_free hfree]
      have hfields := Ty.heightFields_le_iff.mp (Nat.succ_le_succ_iff.mp ((s.applyRow row).height_eq ▸ hbounded.2))
      have hV : ∀ x ∈ (s.applyRow row).vars, x ∈ V.erase (.row w) := fun x hx =>
        Finset.mem_erase.mpr ⟨hself x hx, hbounded.1 x hx⟩
      rw [Assignment.Confined, hvalue, Row.explicit_eq]
      generalize s.applyRow row = applied at hfields hV ⊢
      obtain ⟨k', fs, rest⟩ := applied
      refine ⟨List.forall_mem_map.mpr fun f hf => ⟨fun x hx => ?_, ?_⟩, fun x hx => ?_⟩
      · exact hV x (Row.mem_vars.mpr (.inl ⟨f, hf, (Ty.mem_vars_explicit_both.1 _).mp hx⟩))
      · rw [Ty.height_explicit_both.1]
        exact hfields f hf
      · exact hV _ (Row.mem_vars.mpr (.inr ⟨x, hx, rfl⟩))

end Substitution

end RowTyping
