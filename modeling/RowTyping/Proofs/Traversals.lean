import RowTyping.Proofs.Application

namespace RowTyping

namespace Substitution

def closing : Var → Substitution
  | .type id => empty.bindType id .unit
  | .row id => empty.bindRow id (.closedRecord [])

theorem acyclic_closing (v : Var) : (closing v).Acyclic := by
  cases v with
  | type id => exact acyclic_empty.bindType nofun nofun
  | row id =>
      refine (acyclic_empty.bindRow_iff (not_binds_empty _) _).mpr ?_
      rintro ⟨w, hw, -⟩
      exact nomatch hw

theorem binds_closing (v : Var) : (closing v).Binds v := by
  cases v with
  | type id => exact ⟨.unit, by simp [closing, bindType, lookupType, OrderedMap.find?_insert]⟩
  | row id => exact ⟨.closedRecord [], by simp [closing, bindRow, lookupRow, OrderedMap.find?_insert]⟩

end Substitution

namespace Ty

variable {t : Ty}

theorem one_le_countRowVar_iff {r : RowVarId} : 1 ≤ t.countRowVar r ↔ r ∈ t.rowVars := by
  change 0 < t.countRowVar r ↔ _
  rw [countRowVar_eq, List.countP_pos_iff, rowVars_eq, OrderedSet.mem_ofList, List.mem_filterMap]
  refine exists_congr fun o => and_congr_right fun _ => ?_
  cases o <;> simp [Occurrence.isTail, Occurrence.tail?]

theorem apply_of_ground (h : t.isGround = true) (s : Substitution) : s.apply t = t :=
  Substitution.apply_of_free fun v hv => absurd hv (isGround_iff.mp h v)

-- A variable of the type is bound to something closed: it is not in the result, so the result is another type.
theorem ground_of_apply (h : ∀ s : Substitution, s.Acyclic → s.apply t = t) : t.isGround = true := by
  refine isGround_iff.mpr fun v hv => ?_
  have hacyclic := Substitution.acyclic_closing v
  have happly : v ∈ ((Substitution.closing v).apply t).vars := (h _ hacyclic).symm ▸ hv
  exact hacyclic.free_of_apply happly (Substitution.binds_closing v)

theorem traversals_agree (t : Ty) :
    t.typeVarKinds.keys = t.typeVars ∧ t.rowVarKinds.keys = t.rowVars ∧ (∀ r, 1 ≤ t.countRowVar r ↔ r ∈ t.rowVars) ∧
      (t.isGround = true ↔ ∀ s : Substitution, s.apply t = t) ∧
        (t.isGround = true ↔ ∀ s : Substitution, s.Acyclic → s.apply t = t) :=
  ⟨t.keys_typeVarKinds, t.keys_rowVarKinds, fun _ => one_le_countRowVar_iff,
    ⟨apply_of_ground, fun h => ground_of_apply fun s _ => h s⟩, ⟨fun h s _ => apply_of_ground h s, ground_of_apply⟩⟩

example :
    let t := Ty.fn [.record (.openRecord [("f", .list (.ofVar 3))] 1)] (Effects.opened ["IO"] 2) (.tuple [.ofVar 0, .ofVar 3])
    t.typeVars = [0, 3] ∧ t.rowVarKinds = [(1, .recordRow), (2, .effectRow)] ∧ t.countRowVar 2 = 1 ∧ t.isGround = false := by
  decide

end Ty

end RowTyping
