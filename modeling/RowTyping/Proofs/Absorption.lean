import RowTyping.Proofs.Binding

namespace RowTyping

namespace Ty

variable {σ σ' : TypeVarId → Option Ty} {ρ ρ' : RowVarId → Option Row}

-- The fields of a replaced tail are themselves replaced, so that the merges are associated the other way.
theorem subst_absorbed_both (hσ : ∀ v u, σ v = some u → σ' v = some (u.subst σ' ρ'))
    (hρ : ∀ r row, ρ r = some row → OrderedMap.Ascending row.fields ∧ ρ' r = some (substRow σ' ρ' row))
    (hρ' : ∀ r row, ρ' r = some row → OrderedMap.Ascending row.fields) :
    (∀ t : Ty, t.Ordered → (t.subst σ ρ).subst σ' ρ' = t.subst σ' ρ') ∧
      ∀ r : Row, r.Ordered → substRow σ' ρ' (substRow σ ρ r) = substRow σ' ρ' r := by
  apply Ty.induct_rows
  case var =>
    intro v _
    cases hv : σ v.id with
    | none => rw [subst_var, hv, Option.getD_none]
    | some u => rw [subst_var, hv, Option.getD_some, subst_var, hσ v.id u hv, Option.getD_some]
  case con => exact fun _ _ => rfl
  case app =>
    intro f as hf has h
    rw [subst_app, subst_app, subst_app, hf fun r hr => h r (mem_rows_app.mpr (.inl hr)), List.map_map]
    congr 1
    exact List.map_congr_left fun a ha => has a ha fun r hr => h r (mem_rows_app.mpr (.inr ⟨a, ha, hr⟩))
  case list =>
    intro a ha h
    rw [subst_list, subst_list, subst_list, ha fun r hr => h r (mem_rows_list.mpr hr)]
  case tuple =>
    intro as has h
    rw [subst_tuple, subst_tuple, subst_tuple, List.map_map]
    congr 1
    exact List.map_congr_left fun a ha => has a ha fun r hr => h r (mem_rows_tuple.mpr ⟨a, ha, hr⟩)
  case fn =>
    intro ps e r hps he hr h
    have hmap : (ps.map (subst σ ρ)).map (subst σ' ρ') = ps.map (subst σ' ρ') := by
      rw [List.map_map]
      exact List.map_congr_left fun p hp => hps p hp fun r hr => h r (mem_rows_fn.mpr (.inl ⟨p, hp, hr⟩))
    have heffects : (e.map (substRow σ ρ)).map (substRow σ' ρ') = e.map (substRow σ' ρ') := by
      cases e with
      | none => rfl
      | some row => exact congrArg some (he row rfl fun r hr => h r (mem_rows_fn.mpr (.inr (.inl ⟨row, rfl, hr⟩))))
    rw [subst_fn, subst_fn, subst_fn, hmap, heffects, hr fun r' hr' => h r' (mem_rows_fn.mpr (.inr (.inr hr')))]
  case record =>
    intro r hr h
    rw [subst_record, subst_record, subst_record, hr fun r' hr' => h r' (mem_rows_record.mpr hr')]
  case row =>
    intro k fs rest hfs h
    obtain ⟨hasc, hord⟩ := Row.ordered_iff.mp h
    have hmap : OrderedMap.mapValues (subst σ' ρ') (OrderedMap.mapValues (subst σ ρ) fs) = OrderedMap.mapValues (subst σ' ρ') fs := by
      rw [OrderedMap.mapValues, OrderedMap.mapValues, List.map_map]
      exact List.map_congr_left fun f hf => by simp [hfs f hf (hord f hf)]
    cases hrest : rest.bind ρ with
    | none =>
        rw [substRow_none_tail hrest]
        cases hrest' : rest.bind ρ' with
        | none => rw [substRow_none_tail hrest', substRow_none_tail hrest', hmap]
        | some tail => rw [substRow_some_tail hrest', substRow_some_tail hrest', hmap]
    | some tail =>
        obtain ⟨r, rfl, hr⟩ := Option.bind_eq_some_iff.mp hrest
        obtain ⟨htail, hr'⟩ := hρ r tail hr
        obtain ⟨k', gs, rest'⟩ := tail
        rw [substRow_some_tail hrest, substRow_bound hr']
        have hgs : OrderedMap.Ascending (OrderedMap.mapValues (subst σ' ρ') gs) := OrderedMap.Ascending.mapValues _ htail
        cases hrest' : rest'.bind ρ' with
        | none => rw [substRow_none_tail hrest', substRow_none_tail hrest', OrderedMap.mapValues_merge, hmap]
        | some tail' =>
            obtain ⟨r', -, htail'⟩ := Option.bind_eq_some_iff.mp hrest'
            have hfs' : OrderedMap.Ascending (OrderedMap.mapValues (subst σ' ρ') fs) := OrderedMap.Ascending.mapValues _ hasc
            rw [substRow_some_tail hrest', substRow_some_tail hrest', OrderedMap.mapValues_merge, hmap,
              OrderedMap.merge_assoc hfs' hgs (hρ' r' tail' htail')]

end Ty

namespace Substitution

variable {s s' : Substitution}

def Honours (s' s : Substitution) : Prop :=
  (∀ id t, s.lookupType id = some t → s'.assigned s'.apply id = some (s'.apply t)) ∧
    ∀ id r, s.lookupRow id = some r → s'.assignedRow s'.applyRow id = some (s'.applyRow r)

theorem Extends.honours (h : s'.Extends s) : s'.Honours s :=
  ⟨fun id t ht => congrArg (Option.map s'.apply) (h.1 id t ht), fun id r hr => congrArg (Option.map s'.applyRow) (h.2 id r hr)⟩

theorem Acyclic.chase_absorbed (hacyclic : s'.Acyclic) (hord : s'.Ordered) (h : s'.Honours s) (hs : s.Ordered) (n : Nat) :
    (∀ t : Ty, t.Ordered → s'.apply (s.chase n t) = s'.apply t) ∧
      ∀ r : Row, r.Ordered → s'.applyRow (s.chaseRow n r) = s'.applyRow r := by
  induction n with
  | zero => exact ⟨fun _ _ => rfl, fun _ _ => rfl⟩
  | succ n ih =>
      have htypes : ∀ v u, s.assigned (s.chase n) v = some u →
          s'.assigned s'.apply v = some (u.subst (s'.assigned s'.apply) (s'.assignedRow s'.applyRow)) := by
        intro v u hv
        obtain ⟨t, ht, rfl⟩ := Option.map_eq_some_iff.mp hv
        rw [h.1 v t ht, ← hacyclic.apply_eq, ih.1 t (hs.1 v t ht)]
      have hrows : ∀ r row, s.assignedRow (s.chaseRow n) r = some row → OrderedMap.Ascending row.fields ∧
          s'.assignedRow s'.applyRow r = some (Ty.substRow (s'.assigned s'.apply) (s'.assignedRow s'.applyRow) row) := by
        intro r row hr
        obtain ⟨row, hrow, rfl⟩ := Option.map_eq_some_iff.mp hr
        refine ⟨(Row.ordered_iff.mp ((All.chase_both substitutive_ordered hs n).2 row (hs.2 r row hrow))).1, ?_⟩
        rw [h.2 r row hrow, ← hacyclic.applyRow_eq, ih.2 row (hs.2 r row hrow)]
      have hascending : ∀ r row, s'.assignedRow s'.applyRow r = some row → OrderedMap.Ascending row.fields := by
        intro r row hr
        obtain ⟨row, hrow, rfl⟩ := Option.map_eq_some_iff.mp hr
        exact (Row.ordered_iff.mp (hord.applyRow (hord.2 r row hrow))).1
      have habsorbed := Ty.subst_absorbed_both htypes hrows hascending
      refine ⟨fun t ht => ?_, fun r hr => ?_⟩
      · rw [chase_succ, hacyclic.apply_eq, habsorbed.1 t ht, ← hacyclic.apply_eq]
      · rw [chaseRow_succ, hacyclic.applyRow_eq, habsorbed.2 r hr, ← hacyclic.applyRow_eq]

theorem Acyclic.apply_absorbed (hacyclic : s'.Acyclic) (hord : s'.Ordered) (h : s'.Honours s) (hs : s.Ordered) {t : Ty}
    (ht : t.Ordered) : s'.apply (s.apply t) = s'.apply t :=
  (hacyclic.chase_absorbed hord h hs _).1 t ht

theorem Acyclic.applyRow_absorbed (hacyclic : s'.Acyclic) (hord : s'.Ordered) (h : s'.Honours s) (hs : s.Ordered) {r : Row}
    (hr : r.Ordered) : s'.applyRow (s.applyRow r) = s'.applyRow r :=
  (hacyclic.chase_absorbed hord h hs _).2 r hr

end Substitution

end RowTyping
