import RowTyping.Proofs.Unification.Moves

namespace RowTyping

variable {A : Assignment}

theorem Assignment.Ordered.nil_merge_tail (hA : A.Ordered) (r : RowVarId) :
    (⟨OrderedMap.merge [] (A.row r).fields, (A.row r).rest⟩ : Tail) = A.row r := by
  rw [OrderedMap.nil_merge (hA r)]

namespace Row

variable {e a : Row}

theorem value_residual (e a : Row) :
    (e.residual a).value A = ⟨e.kind, OrderedMap.merge (OrderedMap.mapValues (Ty.value A) (e.only a))
      (A.tail e.rest).fields, (A.tail e.rest).rest⟩ := by
  rw [value_eq]
  rfl

theorem tail_value_bare (hA : A.Ordered) {r : Row} {w : RowVarId} (hrest : r.rest = some w) (hfields : r.fields = []) :
    A.row w = (r.value A).tail := by
  rw [tail_value, hrest, hfields]
  exact (hA.nil_merge_tail w).symm

-- The fields of each row that the other lacks may be added in either order, since no label is among both.
theorem merge_only_comm (he : OrderedMap.Ascending e.fields) (ha : OrderedMap.Ascending a.fields)
    {fs : OrderedMap Label Ty} (hfs : fs.Ascending) :
    OrderedMap.merge (OrderedMap.mapValues (Ty.value A) (e.only a))
        (OrderedMap.merge (OrderedMap.mapValues (Ty.value A) (a.only e)) fs) =
      OrderedMap.merge (OrderedMap.mapValues (Ty.value A) (a.only e))
        (OrderedMap.merge (OrderedMap.mapValues (Ty.value A) (e.only a)) fs) := by
  have hea : OrderedMap.Ascending (OrderedMap.mapValues (Ty.value A) (e.only a)) := (ascending_only he).mapValues _
  have hae : OrderedMap.Ascending (OrderedMap.mapValues (Ty.value A) (a.only e)) := (ascending_only ha).mapValues _
  apply OrderedMap.Ascending.ext (hea.merge _) (hae.merge _)
  intro l
  have hel : OrderedMap.find? (e.only a) l = if (a.get? l).isSome then none else e.get? l := get?_residual he
  have hal : OrderedMap.find? (a.only e) l = if (e.get? l).isSome then none else a.get? l := get?_residual ha
  simp only [OrderedMap.find?_merge _ (hea.merge fs), OrderedMap.find?_merge _ (hae.merge fs),
    OrderedMap.find?_merge _ hfs, OrderedMap.find?_mapValues, hel, hal]
  cases e.get? l with
  | none => cases a.get? l <;> simp
  | some t => cases a.get? l <;> simp

end Row

namespace Unifier

variable {u u' : Unifier} {n : Nat} {gs : List Goal} {verdict : Verdict}

theorem BindsTail.models {r : RowVarId} {row : Row} (h : BindsTail u r row .solved u') (hA : A.Ordered)
    (hm : A.Models u'.subst) : A.row r = (row.value A).tail := by
  cases h with
  | same hrest hfields => exact Row.tail_value_bare hA hrest hfields
  | bound =>
      apply hm.2
      rw [bindRow_subst, Substitution.lookupRow_bindRow, if_pos rfl]

theorem BindsTail.models_other {r w : RowVarId} {row other : Row} (h : BindsTail u r row .solved u')
    (hm : A.Models u'.subst) (hw : u.subst.lookupRow w = some other) (hne : w ≠ r) : A.row w = (other.value A).tail := by
  apply hm.2
  cases h with
  | same => exact hw
  | bound => rwa [bindRow_subst, Substitution.lookupRow_bindRow, if_neg hne]

-- Once the tails are settled, each residual row holds what the other one asks for.
theorem SettlesTails.sound {e a : Row} (h : SettlesTails u e a .solved u') (hA : A.Ordered) (hm : A.Models u'.subst)
    (he : OrderedMap.Ascending e.fields) (ha : OrderedMap.Ascending a.fields) (hkind : e.kind = a.kind) :
    (e.residual a).value A = (a.residual e).value A := by
  rw [Row.value_residual, Row.value_residual, hkind]
  have hae : OrderedMap.Ascending (OrderedMap.mapValues (Ty.value A) (a.only e)) := (Row.ascending_only ha).mapValues _
  have hea : OrderedMap.Ascending (OrderedMap.mapValues (Ty.value A) (e.only a)) := (Row.ascending_only he).mapValues _
  cases h with
  | agree hrest hex hax => rw [hex, hax, hrest]
  | expected r _ _ hr hr' hex hbind =>
      have hrow := hbind.models hA hm
      rw [Row.tail_value] at hrow
      simp only [Assignment.tail, hr, hr', hrow, hex, OrderedMap.mapValues, List.map_nil]
      congr 1
      exact OrderedMap.nil_merge hae
  | actual r _ _ hr hr' hax hbind =>
      have hrow := hbind.models hA hm
      rw [Row.tail_value] at hrow
      simp only [Assignment.tail, hr, hr', hrow, hax, OrderedMap.mapValues, List.map_nil]
      congr 1
      exact (OrderedMap.nil_merge hea).symm
  | join r r' _ _ hr hr' _ hex hax hbind =>
      have hrow := hbind.models hA hm
      rw [Row.tail_value] at hrow
      simp only [Assignment.tail, OrderedMap.mapValues, List.map_nil, hA.nil_merge_tail] at hrow
      simp only [Assignment.tail, hr, hr', hrow, hex, hax]
  | shareRefused _ _ _ _ _ _ _ _ _ hne => exact absurd rfl hne
  | share r r' _ u₁ _ hr hr' hne _ hfirst hsecond =>
      have hrow' := hsecond.models hA hm
      have hrow : A.row r = ((⟨e.kind, a.only e, some u.supply.nextRow⟩ : Row).value A).tail := by
        cases hfirst with
        | same hrest hfields => exact Row.tail_value_bare hA hrest hfields
        | bound => exact hsecond.models_other hm (by rw [bindRow_subst, Substitution.lookupRow_bindRow, if_pos rfl]) hne
      rw [Row.tail_value] at hrow hrow'
      simp only [Assignment.tail, hr, hr', hrow, hrow']
      congr 1
      exact Row.merge_only_comm he ha (hA _)

theorem Ready.holds_applyGoal (hu : u.Ready) (hA : A.Ordered) (hm : A.Models u.subst) {g : Goal}
    (hg : g.Within u.supply) : (u.applyGoal g).Holds A ↔ g.Holds A := by
  have hs := hu.within.ordered
  cases g with
  | types e a => simp only [applyGoal, Goal.holds_types, hm.apply hA hs hg.1.1, hm.apply hA hs hg.2.1]
  | rows e a => simp only [applyGoal, Goal.holds_rows, hm.applyRow hA hs hg.1.1, hm.applyRow hA hs hg.2.1]

theorem BindsType.models {v : TypeVar} {t : Ty} (h : BindsType u v t .solved u') (hm : A.Models u'.subst) :
    A.type v = t.value A := by
  cases h with
  | same heq => rw [heq, Ty.value_var]
  | bound => exact hm.1 v.id t (by rw [bindType_subst, Substitution.lookupType_bindType, if_pos rfl]) v.kind

theorem Solves.sound (h : Solves n u gs verdict u') (hsolved : verdict = .solved) (hu : u.Ready)
    (hgs : ∀ g ∈ gs, g.Within u.supply) (hA : A.Ordered) (hm : A.Models u'.subst) : ∀ g ∈ gs, g.Holds A := by
  induction h with
  | nil => simp
  | cons hhead hrest ihhead ihrest =>
      rw [List.forall_mem_cons] at hgs
      have hfirst := List.forall_mem_singleton.mpr hgs.1
      have moves := hhead.moves hu hfirst
      have hrestgs := fun g hg => (hgs.2 g hg).mono fun v => moves.covers
      have hm₁ := hm.of_extends (hrest.moves (moves.ready hu) hrestgs).extends
      exact List.forall_mem_cons.mpr
        ⟨List.forall_mem_singleton.mp (ihhead rfl hu hfirst hm₁), ihrest hsolved (moves.ready hu) hrestgs hm⟩
  | stop _ hne => exact absurd hsolved hne
  | exhausted => cases hsolved
  | identical heq =>
      rw [List.forall_mem_singleton, ← hu.holds_applyGoal hA hm (List.forall_mem_singleton.mp hgs)]
      exact congrArg (Ty.value A) heq
  | bind hne hmeet hbind =>
      have hm₀ := hm.of_extends ((Solves.bind (n := 0) hne hmeet hbind).moves hu hgs).extends
      subst hsolved
      have hv := hbind.models hm
      rw [List.forall_mem_singleton, ← hu.holds_applyGoal hA hm₀ (List.forall_mem_singleton.mp hgs)]
      rcases Ty.bind_of_meet hmeet with ⟨hx, rfl⟩ | ⟨hx, rfl⟩
      · simpa [applyGoal, hx] using hv
      · simpa [applyGoal, hx] using hv.symm
  | parts hne hmeet hparts ih =>
      have hg := List.forall_mem_singleton.mp hgs
      have hm₀ := hm.of_extends ((Solves.parts hne hmeet hparts).moves hu hgs).extends
      rw [List.forall_mem_singleton, ← hu.holds_applyGoal hA hm₀ hg]
      exact (Ty.parts_of_meet hmeet).holds.mp (ih hsolved (hu.record _ _ _) (hu.parts_within hg hmeet) hm)
  | rows hne hmeet hrows ih =>
      have hg := List.forall_mem_singleton.mp hgs
      have hm₀ := hm.of_extends ((Solves.rows hne hmeet hrows).moves hu hgs).extends
      have hrows := ih hsolved hu (List.forall_mem_singleton.mpr (hu.rows_within hg hmeet)) hm
      obtain ⟨hx, hy⟩ := Ty.rows_of_meet hmeet
      rw [List.forall_mem_singleton, ← hu.holds_applyGoal hA hm₀ hg]
      simpa [applyGoal, hx, hy] using hrows
  | clash => cases hsolved
  | kinds => cases hsolved
  | equal hkind heq =>
      rw [List.forall_mem_singleton, ← hu.holds_applyGoal hA hm (List.forall_mem_singleton.mp hgs)]
      exact congrArg (Row.value A) heq
  | fields _ _ _ hne => exact absurd hsolved hne
  | restart hkind hne hfields hbound hrest ihfields ih =>
      have hg := List.forall_mem_singleton.mp hgs
      have hm₀ := hm.of_extends ((Solves.restart hkind hne hfields hbound hrest).moves hu hgs).extends
      have moves := hfields.moves (hu.record _ _ _) (hu.commonGoals_within hg)
      have hready := moves.ready (hu.record _ _ _)
      have hresidual := List.forall_mem_singleton.mpr ((hu.residual_within hg).mono fun v => moves.covers)
      have hm₁ := hm.of_extends (hrest.moves hready hresidual).extends
      have hcommon := ihfields rfl (hu.record _ _ _) (hu.commonGoals_within hg) hm₁
      have hvalue := List.forall_mem_singleton.mp (ih hsolved hready hresidual hm)
      have happlied := hu.applyGoal_within hg
      rw [List.forall_mem_singleton, ← hu.holds_applyGoal hA hm₀ hg]
      exact Row.value_eq_of_residual hA happlied.1.ascending happlied.2.ascending
        (Substitution.applyRow_same_kind hkind) hcommon hvalue
  | @tails n u u₁ u' e a verdict hkind hne hfields hbound htails ih =>
      have hg := List.forall_mem_singleton.mp hgs
      have hm₀ := hm.of_extends ((Solves.tails hkind hne hfields hbound htails).moves hu hgs).extends
      have moves := hfields.moves (hu.record _ _ _) (hu.commonGoals_within hg)
      have happlied := hu.applyGoal_within hg
      have hkinds := Substitution.applyRow_same_kind (s := u.subst) hkind
      obtain ⟨hfe, hfa⟩ := Bool.or_eq_false_iff.mp hbound
      obtain ⟨he, ha⟩ := happlied.mono fun v => moves.covers
      have hm₁ := hm.of_extends (htails.moves (moves.ready (hu.record _ _ _)) he ha
        (isBound_eq_false.mp hfe) (isBound_eq_false.mp hfa)).extends
      have hcommon := ih rfl (hu.record _ _ _) (hu.commonGoals_within hg) hm₁
      subst hsolved
      have hvalue := htails.sound hA hm happlied.1.ascending happlied.2.ascending hkinds
      rw [List.forall_mem_singleton, ← hu.holds_applyGoal hA hm₀ hg]
      exact Row.value_eq_of_residual hA happlied.1.ascending happlied.2.ascending hkinds hcommon hvalue

end Unifier

end RowTyping
