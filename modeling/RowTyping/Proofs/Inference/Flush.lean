import RowTyping.Infer.Context
import RowTyping.Proofs.Unification.Labels
import RowTyping.Proofs.Unification.MostGeneral

namespace RowTyping

namespace Unifier

theorem BindsType.errors {u u' : Unifier} {v : TypeVar} {t : Ty} {verdict : Verdict} (h : BindsType u v t verdict u') :
    u'.errors = u.errors := by
  cases h <;> rfl

theorem BindsTail.errors {u u' : Unifier} {r : RowVarId} {row : Row} {verdict : Verdict} (h : BindsTail u r row verdict u') :
    u'.errors = u.errors := by
  cases h <;> rfl

theorem SettlesTails.errors {u u' : Unifier} {e a : Row} {verdict : Verdict} (h : SettlesTails u e a verdict u') :
    u'.errors = u.errors := by
  cases h with
  | agree => rfl
  | labels => rfl
  | expected _ _ _ _ _ _ hbind => exact hbind.errors
  | actual _ _ _ _ _ _ hbind => exact hbind.errors
  | join _ _ _ _ _ _ _ _ _ hbind => exact hbind.errors
  | shareRefused _ _ _ _ _ _ _ _ hbind => exact hbind.errors
  | share _ _ _ _ _ _ _ _ _ hfirst hsecond => exact hsecond.errors.trans hfirst.errors

theorem Solves.errors {n : Nat} {u u' : Unifier} {gs : List Goal} {verdict : Verdict} (h : Solves n u gs verdict u') :
    u'.errors = u.errors := by
  induction h with
  | nil => rfl
  | cons _ _ ihhead ihrest => exact ihrest.trans ihhead
  | stop _ _ ih => exact ih
  | exhausted => rfl
  | identical => rfl
  | bind _ _ hbind => exact hbind.errors
  | parts _ _ _ ih => exact ih
  | rows _ _ _ ih => exact ih
  | clash => rfl
  | kinds => rfl
  | equal => rfl
  | fields _ _ _ _ ih => exact ih
  | restart _ _ _ _ _ ihfields ih => exact ih.trans ihfields
  | tails _ _ _ _ htails ih => exact htails.errors.trans ih

theorem run_errors (u : Unifier) (g : Goal) : (run g u).2.errors = u.errors :=
  (solves_run g u).errors

theorem errors_bindDefaults (u : Unifier) (defaults : Substitution) : (u.bindDefaults defaults).errors = u.errors := by
  rw [bindDefaults]
  induction defaults.types generalizing u with
  | nil => rfl
  | cons e es ih =>
      rw [List.foldl_cons, ih, bindDefault]
      split <;> rfl

end Unifier

namespace Context

variable {c : Context} {q : Equation} {qs qs' : List Equation}

theorem solveEquation_ok (h : (Unifier.run q.goal c.unifier).1 = .ok ()) :
    (c.solveEquation q).unifier = (Unifier.run q.goal c.unifier).2 := by
  rw [solveEquation_eq]
  rcases hrun : Unifier.run q.goal c.unifier with ⟨_ | _, u⟩
  · rw [hrun] at h
    cases h
  · rfl

theorem subst_solveEquation : (c.solveEquation q).subst = (Unifier.run q.goal c.unifier).2.subst := by
  rw [solveEquation_eq]
  rcases Unifier.run q.goal c.unifier with ⟨_ | _, u⟩ <;> rfl

theorem supply_solveEquation : (c.solveEquation q).unifier.supply = (Unifier.run q.goal c.unifier).2.supply := by
  rw [solveEquation_eq]
  rcases Unifier.run q.goal c.unifier with ⟨_ | _, u⟩ <;> rfl

@[simp]
theorem equations_solveEquation : (c.solveEquation q).equations = c.equations := by
  rw [solveEquation_eq]
  rcases Unifier.run q.goal c.unifier with ⟨_ | _, u⟩ <;> rfl

@[simp]
theorem classes_solveEquation : (c.solveEquation q).classes = c.classes := by
  rw [solveEquation_eq]
  rcases Unifier.run q.goal c.unifier with ⟨_ | _, u⟩ <;> rfl

@[simp]
theorem resolved_solveEquation : (c.solveEquation q).resolved = c.resolved := by
  rw [solveEquation_eq]
  rcases Unifier.run q.goal c.unifier with ⟨_ | _, u⟩ <;> rfl

theorem foldl_solveEquation {α : Type} {f : Context → α} (h : ∀ c q, f (solveEquation c q) = f c) (c : Context)
    (qs : List Equation) : f (qs.foldl solveEquation c) = f c := by
  induction qs generalizing c with
  | nil => rfl
  | cons q qs ih => rw [List.foldl_cons, ih, h]

theorem classes_flush : c.flush.classes = c.classes := by
  rw [flush_eq]
  exact foldl_solveEquation (fun _ _ => classes_solveEquation) _ _

theorem classes_solve : c.solve.classes = c.classes.map (ClassConstraint.mapTy c.flush.apply) :=
  congrArg (Scopes.map _) classes_flush

theorem resolved_flush : c.flush.resolved = c.resolved := by
  rw [flush_eq]
  exact foldl_solveEquation (fun _ _ => resolved_solveEquation) _ _

theorem equations_flush : c.flush.equations = .empty := by
  rw [flush_eq]
  exact foldl_solveEquation (fun _ _ => equations_solveEquation) _ _

theorem errors_solveEquation (c : Context) (q : Equation) :
    ∃ ds, (c.solveEquation q).errors = c.errors ++ ds ∧ (ds = [] ↔ (Unifier.run q.goal c.unifier).1 = .ok ()) := by
  have herrors := c.unifier.run_errors q.goal
  rw [solveEquation_eq]
  rcases hrun : Unifier.run q.goal c.unifier with ⟨e | _, u⟩
  · rw [hrun] at herrors
    exact ⟨_, congrArg (· ++ _) herrors, by simp⟩
  · rw [hrun] at herrors
    exact ⟨[], herrors.trans (List.append_nil _).symm, by simp⟩

theorem errors_foldl (c : Context) (qs : List Equation) :
    ∃ ds, (qs.foldl solveEquation c).errors = c.errors ++ ds ∧ (ds = [] ↔ c.unifier.SolvesAll (qs.map Equation.goal)) := by
  induction qs generalizing c with
  | nil => exact ⟨[], (List.append_nil _).symm, by simp [Unifier.SolvesAll]⟩
  | cons q qs ih =>
      obtain ⟨ds, hds, hok⟩ := c.errors_solveEquation q
      obtain ⟨ds', hds', hrest⟩ := ih (c.solveEquation q)
      refine ⟨ds ++ ds', by rw [List.foldl_cons, hds', hds, List.append_assoc], ?_⟩
      rw [List.append_eq_nil_iff, hok, hrest, List.map_cons, Unifier.SolvesAll]
      exact and_congr_right fun h => by rw [solveEquation_ok h]

theorem unifier_foldl (h : c.unifier.SolvesAll (qs.map Equation.goal)) :
    (qs.foldl solveEquation c).unifier = c.unifier.through (qs.map Equation.goal) := by
  induction qs generalizing c with
  | nil => rfl
  | cons q qs ih =>
      obtain ⟨hok, hrest⟩ := h
      rw [← solveEquation_ok hok] at hrest
      rw [List.foldl_cons, ih hrest, solveEquation_ok hok, List.map_cons, Unifier.through_cons]

theorem errors_append_flush (c : Context) :
    ∃ ds, c.flush.errors = c.errors ++ ds ∧ (ds = [] ↔ c.unifier.SolvesAll (c.equations.toList.map Equation.goal)) := by
  rw [flush_eq]
  exact errors_foldl { c with equations := .empty } c.equations.toList

theorem errors_flush (hc : c.errors = []) :
    c.flush.errors = [] ↔ c.unifier.SolvesAll (c.equations.toList.map Equation.goal) := by
  obtain ⟨ds, hds, hok⟩ := c.errors_append_flush
  rw [hds, hc, List.nil_append]
  exact hok

theorem unifier_flush (h : c.unifier.SolvesAll (c.equations.toList.map Equation.goal)) :
    c.flush.unifier = c.unifier.through (c.equations.toList.map Equation.goal) := by
  rw [flush_eq]
  exact unifier_foldl (c := { c with equations := .empty }) h

def await (c : Context) (qs : List Equation) : Context :=
  { c with equations := c.equations.append qs }

structure Solvable (c : Context) (qs : List Equation) : Prop where
  errors : (c.await qs).flush.errors = []
  acyclic : (c.await qs).flush.subst.Acyclic
  apart : ∀ q ∈ qs, q.goal.Apart (c.await qs).flush.subst.assignment

variable {sup : Supply} {κ : TypeVarId → Kind}

theorem toList_await : ((ofSupply sup).await qs).equations.toList = qs :=
  Scopes.toList_append _ _

theorem errors_await : ((ofSupply sup).await qs).flush.errors = [] ↔
    (Unifier.ofSupply sup).SolvesAll (qs.map Equation.goal) := by
  rw [errors_flush (show ((ofSupply sup).await qs).errors = [] from rfl), toList_await]
  rfl

theorem subst_await (h : (Unifier.ofSupply sup).SolvesAll (qs.map Equation.goal)) :
    ((ofSupply sup).await qs).flush.subst = ((Unifier.ofSupply sup).through (qs.map Equation.goal)).subst := by
  have hflush := unifier_flush (c := (ofSupply sup).await qs) (by rwa [toList_await])
  rw [toList_await] at hflush
  exact congrArg Unifier.subst hflush

theorem solvable_iff : (ofSupply sup).Solvable qs ↔ (Unifier.ofSupply sup).Settles (qs.map Equation.goal) := by
  constructor
  · rintro ⟨herrors, hacyclic, hapart⟩
    have hall := errors_await.mp herrors
    rw [subst_await hall] at hacyclic hapart
    exact ⟨hall, hacyclic, ⟨nofun, nofun⟩, List.forall_mem_map.mpr hapart⟩
  · intro h
    refine ⟨errors_await.mpr h.solved, ?_, ?_⟩
    · rw [subst_await h.solved]
      exact h.acyclic
    · rw [subst_await h.solved]
      exact List.forall_mem_map.mp h.goals

theorem Solvable.perm (h : (ofSupply sup).Solvable qs) (hperm : qs.Perm qs') (hwithin : ∀ q ∈ qs, q.goal.Within sup)
    (hkinds : ∀ q ∈ qs, q.goal.Kinded κ) : (ofSupply sup).Solvable qs' := by
  rw [solvable_iff] at h ⊢
  exact h.perm (Unifier.ready_empty rfl) (.empty κ) (hperm.map _) (List.forall_mem_map.mpr hwithin)
    (List.forall_mem_map.mpr hkinds)

theorem solvable_iff_of_labels {L : RowVarId → List Label} (hwithin : ∀ q ∈ qs, q.goal.Within sup)
    (hlabels : ∀ q ∈ qs, q.goal.LabelledBy L) :
    (ofSupply sup).Solvable qs ↔
      ((ofSupply sup).await qs).flush.errors = [] ∧ ((ofSupply sup).await qs).flush.subst.Acyclic := by
  rw [solvable_iff, errors_await, Unifier.settles_iff (Unifier.ready_empty rfl) (List.forall_mem_map.mpr hwithin)
    (Layout.total_ofLabels L) (Substitution.conforms_empty _ _) (List.forall_mem_map.mpr fun q hq => (hlabels q hq).conforms)]
  exact and_congr_right fun h => by rw [subst_await h]

theorem flush_perm (hperm : qs.Perm qs') (hwithin : ∀ q ∈ qs, q.goal.Within sup) (hkinds : ∀ q ∈ qs, q.goal.Kinded κ) :
    ((ofSupply sup).Solvable qs ↔ (ofSupply sup).Solvable qs') ∧
      ∀ L : RowVarId → List Label, (∀ q ∈ qs, q.goal.LabelledBy L) →
        (((ofSupply sup).await qs).flush.errors = [] ∧ ((ofSupply sup).await qs).flush.subst.Acyclic ↔
          ((ofSupply sup).await qs').flush.errors = [] ∧ ((ofSupply sup).await qs').flush.subst.Acyclic) := by
  have hwithin' : ∀ q ∈ qs', q.goal.Within sup := fun q hq => hwithin q (hperm.mem_iff.mpr hq)
  have hkinds' : ∀ q ∈ qs', q.goal.Kinded κ := fun q hq => hkinds q (hperm.mem_iff.mpr hq)
  have hiff : (ofSupply sup).Solvable qs ↔ (ofSupply sup).Solvable qs' :=
    ⟨fun h => h.perm hperm hwithin hkinds, fun h => h.perm hperm.symm hwithin' hkinds'⟩
  refine ⟨hiff, fun L hlabels => ?_⟩
  have hlabels' : ∀ q ∈ qs', q.goal.LabelledBy L := fun q hq => hlabels q (hperm.mem_iff.mpr hq)
  rw [← solvable_iff_of_labels hwithin hlabels, ← solvable_iff_of_labels hwithin' hlabels']
  exact hiff

theorem flush_perm_fields :
    let fields : Equation := ⟨.rows (.openRecord [("x", .ofVar 0)] 0) (.openRecord [("y", .int)] 1), ⟨0, [], .matchArms⟩⟩
    let types : Equation := ⟨.types (.list (.ofVar 0)) (.list .bool), ⟨1, [], .ifBranches⟩⟩
    ((ofSupply ⟨1, 2⟩).await [types, fields]).flush.errors = [] ∧
      ((ofSupply ⟨1, 2⟩).await [types, fields]).flush.subst.Acyclic := by
  intro fields types
  have hwithin : ∀ q ∈ [fields, types], q.goal.Within ⟨1, 2⟩ :=
    List.forall_mem_cons.mpr ⟨⟨by decide, by decide⟩, List.forall_mem_singleton.mpr ⟨by decide, by decide⟩⟩
  have hkinds : ∀ q ∈ [fields, types], q.goal.Kinded fun _ => .star :=
    List.forall_mem_cons.mpr ⟨⟨by decide, by decide⟩, List.forall_mem_singleton.mpr ⟨by decide, by decide⟩⟩
  have hlabels : ∀ q ∈ [fields, types], q.goal.LabelledBy fun w => if w = 0 then ["x"] else ["y"] := by
    refine List.forall_mem_cons.mpr ⟨⟨List.forall_mem_singleton.mpr ?_, List.forall_mem_singleton.mpr ?_⟩,
      List.forall_mem_singleton.mpr ⟨nofun, nofun⟩⟩
    · rintro w ⟨⟩ l
      rfl
    · rintro w ⟨⟩ l
      rfl
  have hranked : ((ofSupply ⟨1, 2⟩).await [fields, types]).flush.subst.Ranked
      fun v => if v = .row 2 ∨ v = .type 0 then 0 else 1 := by decide
  exact ((flush_perm (List.Perm.swap _ _ _) hwithin hkinds).2 _ hlabels).mp ⟨by decide, hranked.acyclic⟩

theorem flush_order_matters :
    let joined : Equation := ⟨.rows (.openEffects ["IO"] 0) (.openEffects ["FS"] 0), ⟨0, [], .effectJoin⟩⟩
    let bound : Equation := ⟨.rows (.openEffects [] 0) (.closedEffects ["FS", "IO"]), ⟨1, [], .effectJoin⟩⟩
    ((ofSupply ⟨0, 1⟩).await [joined, bound]).flush.errors ≠ [] ∧
      ((ofSupply ⟨0, 1⟩).await [bound, joined]).flush.errors = [] := by
  decide

end Context

end RowTyping
