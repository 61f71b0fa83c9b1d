import RowTyping.Proofs.Growth
import RowTyping.Proofs.Unification.Soundness

namespace RowTyping

theorem Ty.explicit_eq_var {t : Ty} {v : TypeVar} : t.explicit = .var v ↔ t = .var v := by
  cases t <;> simp [explicit, Assignment.identity]

theorem Row.only_eq_nil {e a : Row} (h : ∀ l ∈ e.labels, l ∈ a.labels) : e.only a = [] := by
  refine List.filter_eq_nil_iff.mpr fun f hf => ?_
  have := OrderedMap.contains_eq_true_iff.mpr (h f.1 (OrderedMap.mem_keys_of_mem hf))
  simpa [has] using this

theorem Row.labels_of_explicit {e a : Row} (h : e.explicit = a.explicit) : e.labels = a.labels := by
  have := congrArg Row.labels h
  simpa [explicit_eq, labels] using this

theorem Row.rest_of_explicit {e a : Row} (h : e.explicit = a.explicit) : e.rest = a.rest := by
  have := congrArg Row.rest h
  simpa [explicit_eq] using this

theorem Row.commonGoals_of_explicit {e a : Row} (he : OrderedMap.Ascending e.fields) (h : e.explicit = a.explicit) :
    ∀ g ∈ e.commonGoals a, g.Holds .identity := by
  refine (commonGoals_hold he).mpr fun l t t' ht ht' => ?_
  have := congrArg (Row.get? · l) h
  simp only [explicit_eq, get?, OrderedMap.find?_mapValues] at this
  rw [get?] at ht ht'
  rw [ht, ht'] at this
  exact Option.some.inj this

namespace Unifier

variable {u u' : Unifier} {n : Nat} {gs : List Goal} {verdict : Verdict}

theorem SettlesTails.again {e a : Row} (h : SettlesTails u e a verdict u') (heq : e.explicit = a.explicit) :
    verdict = .solved ∧ u' = u := by
  have hlabels := Row.labels_of_explicit heq
  have hrest := Row.rest_of_explicit heq
  have hex : e.only a = [] := Row.only_eq_nil fun l hl => hlabels ▸ hl
  have hax : a.only e = [] := Row.only_eq_nil fun l hl => hlabels ▸ hl
  cases h with
  | agree => exact ⟨rfl, rfl⟩
  | labels _ _ hbad => simp [hex, hax] at hbad
  | expected _ _ _ hr hr' => simp [hr, hr'] at hrest
  | actual _ _ _ hr hr' => simp [hr, hr'] at hrest
  | join _ _ _ _ hr hr' hne => simp [hr, hr', hne] at hrest
  | shareRefused _ _ _ _ hr hr' hne => simp [hr, hr', hne] at hrest
  | share _ _ _ _ _ hr hr' hne => simp [hr, hr', hne] at hrest

def Agrees (u : Unifier) (n : Nat) (g : Goal) : Prop :=
  (u.applyGoal g).Holds .identity ∧ (u.applyGoal g).height < n

-- What is taken apart has no bound variables left, so that applying the bindings again changes nothing.
theorem applyGoal_of_free {g : Goal}
    (hg : g.Both (fun t => ∀ v ∈ t.vars, ¬ u.subst.Binds v) fun r => ∀ v ∈ r.vars, ¬ u.subst.Binds v) :
    u.applyGoal g = g := by
  cases g with
  | types => rw [applyGoal, Substitution.apply_of_free hg.1, Substitution.apply_of_free hg.2]
  | rows => rw [applyGoal, Substitution.applyRow_of_free hg.1, Substitution.applyRow_of_free hg.2]

theorem commonGoals_agree (hacyclic : u.subst.Acyclic) (hu : u.Ready) {e a : Row} (hg : (Goal.rows e a).Within u.supply)
    (h : u.Agrees (n + 1) (.rows e a)) :
    ∀ g ∈ (u.subst.applyRow e).commonGoals (u.subst.applyRow a), u.Agrees n g := by
  intro g hmem
  have hfree := Row.commonGoals_both (hereditary_vars fun v => ¬ u.subst.Binds v).toInherited
    (fun _ => hacyclic.free_of_applyRow) (fun _ => hacyclic.free_of_applyRow) g hmem
  have hsmall := Row.height_lt_of_commonGoals hmem
  rw [Agrees, applyGoal_of_free hfree]
  refine ⟨Row.commonGoals_of_explicit (hu.within.applyRow hg.1).ascending h.1 g hmem, ?_⟩
  have := h.2
  simp only [applyGoal, Goal.height] at this
  omega

theorem Solves.again (h : Solves n u gs verdict u') (hacyclic : u.subst.Acyclic) (hu : u.Ready)
    (hgs : ∀ g ∈ gs, g.Within u.supply)
    (hagree : ∀ g ∈ gs, u.Agrees n g) : verdict = .solved ∧ u'.subst = u.subst := by
  induction h with
  | nil => exact ⟨rfl, rfl⟩
  | @cons n u u₁ u' g g' gs verdict hhead _ ihhead ihrest =>
      rw [List.forall_mem_cons] at hgs hagree
      have hfirst := List.forall_mem_singleton.mpr hgs.1
      have moves := hhead.moves hu hfirst
      have hsame := (ihhead hacyclic hu hfirst (List.forall_mem_singleton.mpr hagree.1)).2
      have happly : u₁.Agrees n = u.Agrees n := by
        funext g
        cases g <;> simp only [Agrees, applyGoal, hsame]
      have hrest := ihrest (hsame ▸ hacyclic) (moves.ready hu) (fun g hg => (hgs.2 g hg).mono fun v => moves.covers)
        (by rw [happly]; exact hagree.2)
      exact ⟨hrest.1, hrest.2.trans hsame⟩
  | stop _ hne ih =>
      rw [List.forall_mem_cons] at hgs hagree
      exact absurd (ih hacyclic hu (List.forall_mem_singleton.mpr hgs.1) (List.forall_mem_singleton.mpr hagree.1)).1 hne
  | exhausted => exact absurd (List.forall_mem_singleton.mp hagree).2 (Nat.not_lt_zero _)
  | identical => exact ⟨rfl, rfl⟩
  | bind hne hmeet =>
      have heq := (List.forall_mem_singleton.mp hagree).1
      rcases Ty.bind_of_meet hmeet with ⟨hx, rfl⟩ | ⟨hx, rfl⟩
      · simp only [applyGoal, hx, Goal.holds_types] at heq hne
        exact absurd (Ty.explicit_eq_var.mp heq.symm).symm hne
      · simp only [applyGoal, hx, Goal.holds_types] at heq hne
        exact absurd (Ty.explicit_eq_var.mp heq) hne
  | @parts n u u' e a part gs verdict hne hmeet _ ih =>
      have hg := List.forall_mem_singleton.mp hgs
      obtain ⟨heq, hheight⟩ := List.forall_mem_singleton.mp hagree
      have hparts := Ty.parts_of_meet hmeet
      refine ih hacyclic (hu.record _ _ _) (hu.parts_within hg hmeet) fun g hmem => ?_
      have hfree := hparts.both (hereditary_vars fun v => ¬ u.subst.Binds v).toInherited (fun _ => hacyclic.free_of_apply)
        (fun _ => hacyclic.free_of_apply) g hmem
      have hsmall := hparts.height_lt g hmem
      rw [Agrees, applyGoal_of_free (u := u.record _ _ _) hfree]
      exact ⟨hparts.holds.mpr heq g hmem, by simp only [applyGoal, Goal.height] at hheight; omega⟩
  | @rows n u u' e a r r' verdict hne hmeet hrows ih =>
      have hg := List.forall_mem_singleton.mp hgs
      obtain ⟨heq, hheight⟩ := List.forall_mem_singleton.mp hagree
      have hfree : ∀ v, v ∈ (u.subst.apply e).vars ∨ v ∈ (u.subst.apply a).vars → ¬ u.subst.Binds v := by
        rintro v (hv | hv)
        · exact hacyclic.free_of_apply hv
        · exact hacyclic.free_of_apply hv
      apply ih hacyclic hu (List.forall_mem_singleton.mpr (hu.rows_within hg hmeet))
      obtain ⟨hx, hy⟩ := Ty.rows_of_meet hmeet
      rw [hx, hy] at hfree
      have hsame : u.applyGoal (.rows r r') = .rows r r' :=
        applyGoal_of_free ⟨fun v hv => hfree v (.inl (by simpa using hv)), fun v hv => hfree v (.inr (by simpa using hv))⟩
      rw [List.forall_mem_singleton, Agrees, hsame]
      simp only [applyGoal, hx, hy, Goal.holds_types, Ty.value_record, Ty.record.injEq] at heq
      simp only [applyGoal, hx, hy, Goal.height, Ty.height] at hheight
      exact ⟨heq, by simp only [Goal.height, Row.height]; omega⟩
  | clash hne hmeet => exact absurd (List.forall_mem_singleton.mp hagree).1 (Ty.ne_of_meet_clash hmeet hne _)
  | kinds hkind =>
      have hkinds := congrArg Row.kind (List.forall_mem_singleton.mp hagree).1
      simp only [Row.value_kind, Substitution.applyRow_kind] at hkinds
      exact absurd hkinds hkind
  | equal => exact ⟨rfl, rfl⟩
  | fields _ _ _ hne ih =>
      have hg := List.forall_mem_singleton.mp hgs
      exact absurd (ih hacyclic (hu.record _ _ _) (hu.commonGoals_within hg)
        (commonGoals_agree hacyclic hu hg (List.forall_mem_singleton.mp hagree))).1 hne
  | restart hkind hne hfields hbound hrest ihfields ih =>
      have hg := List.forall_mem_singleton.mp hgs
      have hsame := (ihfields hacyclic (hu.record _ _ _) (hu.commonGoals_within hg)
        (commonGoals_agree hacyclic hu hg (List.forall_mem_singleton.mp hagree))).2
      rw [isBound_rest_eq_false hacyclic hsame, isBound_rest_eq_false hacyclic hsame] at hbound
      cases hbound
  | tails hkind hne hfields hbound htails ih =>
      have hg := List.forall_mem_singleton.mp hgs
      have hsame := (ih hacyclic (hu.record _ _ _) (hu.commonGoals_within hg)
        (commonGoals_agree hacyclic hu hg (List.forall_mem_singleton.mp hagree))).2
      obtain ⟨hsolved, rfl⟩ := htails.again (List.forall_mem_singleton.mp hagree).1
      exact ⟨hsolved, hsame⟩

theorem height_lt_depth (g : Goal) : g.height < g.depth := by
  have : 1 ≤ Nat.pow 4 g.occurrences.length := Nat.one_le_pow _ _ (by decide)
  exact Nat.lt_of_lt_of_le (Nat.lt_succ_self _) (Nat.le_mul_of_pos_right _ this)

theorem run_agrees (hu : u.Ready) {g : Goal} (hg : g.Within u.supply) (hok : (run g u).1 = .ok ())
    (hacyclic : (run g u).2.subst.Acyclic) : ((run g u).2.applyGoal g).Holds .identity := by
  have hrun := solves_run g u
  have hgs := List.forall_mem_singleton.mpr hg
  have moves := hrun.moves hu hgs
  have hwithin := (moves.ready hu).within
  have hordered := hwithin.ordered
  have hmodels := hacyclic.models hordered
  have hholds := hrun.sound (Verdict.ofAnswer_eq_solved.mpr hok) hu hgs (Substitution.assignment_ordered hordered) hmodels
  have hg' := hg.mono fun v => moves.covers
  have hgoal := List.forall_mem_singleton.mp hholds
  cases g with
  | types e a =>
      rw [Goal.holds_types, hacyclic.value_assignment hordered hg'.1.1, hacyclic.value_assignment hordered hg'.2.1] at hgoal
      exact hgoal
  | rows e a =>
      rw [Goal.holds_rows, hacyclic.value_assignment_row hordered hg'.1.1,
        hacyclic.value_assignment_row hordered hg'.2.1] at hgoal
      exact hgoal

theorem run_again (hu : u.Ready) (hacyclic : u.subst.Acyclic) {g : Goal} (hg : g.Within u.supply)
    (hagree : (u.applyGoal g).Holds .identity) : (run g u).1 = .ok () ∧ (run g u).2.subst = u.subst := by
  have hrun := (solves_run g u).again hacyclic hu (List.forall_mem_singleton.mpr hg)
    (List.forall_mem_singleton.mpr ⟨hagree, height_lt_depth _⟩)
  exact ⟨Verdict.ofAnswer_eq_solved.mp hrun.1, hrun.2⟩

theorem run_sound_and_stable (hu : u.Ready) {g : Goal} (hg : g.Within u.supply) (hok : (run g u).1 = .ok ())
    (hacyclic : (run g u).2.subst.Acyclic) :
    ((run g u).2.applyGoal g).Holds .identity ∧ (run g (run g u).2).1 = .ok () ∧
      (run g (run g u).2).2.subst = (run g u).2.subst := by
  have moves := (solves_run g u).moves hu (List.forall_mem_singleton.mpr hg)
  have hagree := run_agrees hu hg hok hacyclic
  exact ⟨hagree, run_again (moves.ready hu) hacyclic (hg.mono fun v => moves.covers) hagree⟩

theorem unify_eq (u : Unifier) (e a : Ty) : u.unify e a = run (.types e a) u := rfl

theorem unifyRows_eq (u : Unifier) (e a : Row) : u.unifyRows e a = run (.rows e a) u := rfl

theorem unify_sound (hacyclic : u.subst.Acyclic) (hcovers : ∀ v, u.subst.Binds v → u.supply.Covers v)
    (hwithin : u.subst.Within u.supply) :
    (∀ e a : Ty, e.Within u.supply → a.Within u.supply → (u.unify e a).1 = .ok () → (u.unify e a).2.subst.Acyclic →
      ((u.unify e a).2.subst.apply e).explicit = ((u.unify e a).2.subst.apply a).explicit ∧
        ((u.unify e a).2.unify e a).1 = .ok () ∧ ((u.unify e a).2.unify e a).2.subst = (u.unify e a).2.subst) ∧
      ∀ e a : Row, e.Within u.supply → a.Within u.supply → (u.unifyRows e a).1 = .ok () →
        (u.unifyRows e a).2.subst.Acyclic →
        ((u.unifyRows e a).2.subst.applyRow e).explicit = ((u.unifyRows e a).2.subst.applyRow a).explicit ∧
          ((u.unifyRows e a).2.unifyRows e a).1 = .ok () ∧
          ((u.unifyRows e a).2.unifyRows e a).2.subst = (u.unifyRows e a).2.subst := by
  have hu : u.Ready := ⟨hacyclic.chainless, hcovers, hwithin⟩
  simp only [unify_eq, unifyRows_eq]
  constructor
  · intro e a he ha hok hfinal
    have h := run_sound_and_stable hu (g := .types e a) ⟨he, ha⟩ hok hfinal
    rwa [applyGoal, Goal.holds_types] at h
  · intro e a he ha hok hfinal
    have h := run_sound_and_stable hu (g := .rows e a) ⟨he, ha⟩ hok hfinal
    rwa [applyGoal, Goal.holds_rows] at h

theorem unify_sound_fn :
    let u := ofSupply ⟨1, 3⟩
    let e := Ty.fn [.ofVar 0] none (.record (.openRecord [("x", .int)] 0))
    let a := Ty.fn [.int] (some (.openEffects [] 1)) (.record (.openRecord [("y", .ofVar 0)] 2))
    ((u.unify e a).2.subst.apply e).explicit = ((u.unify e a).2.subst.apply a).explicit ∧
      ((u.unify e a).2.unify e a).1 = .ok () ∧ ((u.unify e a).2.unify e a).2.subst = (u.unify e a).2.subst := by
  intro u e a
  have hranked : (u.unify e a).2.subst.Ranked fun v => if v = .row 3 ∨ v = .type 0 then 0 else 1 := by decide
  exact (unify_sound Substitution.acyclic_empty (fun v hv => absurd hv (Substitution.not_binds_empty v))
    (Substitution.within_empty _)).1 e a (by decide) (by decide) (by decide) hranked.acyclic

end Unifier

end RowTyping
