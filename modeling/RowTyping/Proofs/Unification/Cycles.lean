import RowTyping.Proofs.Renumbering.Runs
import RowTyping.Proofs.Unification.Moves

namespace RowTyping

open Relation

def Action.onto (s : Substitution) : Action → Substitution
  | .bind v t => s.bindType v t
  | .bindTail r row => s.bindRow r row
  | _ => s

def Substitution.replay (s : Substitution) (steps : List Step) : Substitution :=
  steps.foldl (fun s step => step.action.onto s) s

theorem Action.onto_of_binds {action : Action} (h : action.binds = false) (s : Substitution) : action.onto s = s := by
  cases action <;> first | rfl | cases h

theorem Substitution.replay_append (s : Substitution) (steps : List Step) (step : Step) :
    s.replay (steps ++ [step]) = step.action.onto (s.replay steps) := by
  simp [replay]

def ClosesCycle (s : Substitution) (steps : List Step) : Prop :=
  ∃ before r row left right after, steps = before ++ ⟨.bindTail r row, left, right⟩ :: after ∧
    (s.replay before).Reaches row r

theorem not_closesCycle_nil (s : Substitution) : ¬ ClosesCycle s [] := by
  rintro ⟨before, r, row, left, right, after, h, _⟩
  simp at h

theorem closesCycle_append {s : Substitution} {steps : List Step} {step : Step} :
    ClosesCycle s (steps ++ [step]) ↔
      ClosesCycle s steps ∨ ∃ r row, step.action = .bindTail r row ∧ (s.replay steps).Reaches row r := by
  constructor
  · rintro ⟨before, r, row, left, right, after, heq, hreach⟩
    rcases List.eq_nil_or_concat after with rfl | ⟨after, last, rfl⟩
    · obtain ⟨rfl, hstep⟩ := List.append_inj' heq rfl
      obtain rfl := List.singleton_inj.mp hstep
      exact .inr ⟨r, row, rfl, hreach⟩
    · rw [List.concat_eq_append, ← List.cons_append, ← List.append_assoc] at heq
      exact .inl ⟨before, r, row, left, right, after, (List.append_inj' heq rfl).1, hreach⟩
  · rintro (⟨before, r, row, left, right, after, rfl, hreach⟩ | ⟨r, row, haction, hreach⟩)
    · exact ⟨before, r, row, left, right, after ++ [step], by simp, hreach⟩
    · obtain ⟨action, left, right⟩ := step
      subst haction
      exact ⟨steps, r, row, left, right, [], rfl, hreach⟩

namespace Unifier

variable {u u' : Unifier}

theorem Move.tracing (h : Move u u') : u'.tracing = u.tracing := by
  cases h <;> rfl

theorem record_steps (htracing : u.tracing = true) (action : Action) (left right : Ty) :
    (u.record action left right).steps = ⟨action, left, right⟩ :: u.steps :=
  if_pos htracing

theorem Move.cycles (h : Move u u') (htracing : u.tracing = true) :
    (u'.steps = u.steps ∧ u'.subst = u.subst) ∨
      ∃ step, u'.steps = step :: u.steps ∧ u'.subst = step.action.onto u.subst ∧
        (u.subst.Acyclic → (u'.subst.Acyclic ↔ ¬ ∃ r row, step.action = .bindTail r row ∧ u.subst.Reaches row r)) := by
  cases h with
  | note action left right hbinds =>
      refine .inr ⟨⟨action, left, right⟩, record_steps htracing .., (Action.onto_of_binds hbinds _).symm, fun hacyclic => ?_⟩
      apply iff_of_true hacyclic
      rintro ⟨r, row, rfl, _⟩
      cases hbinds
  | skip => exact .inl ⟨rfl, rfl⟩
  | bindType v t t₀ hv hself happly =>
      refine .inr ⟨⟨.bind v.id t, .var v, t⟩, record_steps htracing .., rfl, fun hacyclic => iff_of_true ?_ (by simp)⟩
      exact hacyclic.bindType hself fun w hw => hacyclic.free_of_apply (happly ▸ hw)
  | bindRow r row hr =>
      refine .inr ⟨⟨.bindTail r row, .record row, .record row⟩, record_steps htracing .., rfl, fun hacyclic => ?_⟩
      rw [bindRow_subst, record_subst, hacyclic.bindRow_iff hr]
      simp

theorem Moves.tracing (h : Moves u u') : u'.tracing = u.tracing := by
  induction h with
  | refl => rfl
  | tail _ hmove ih => exact hmove.tracing.trans ih

-- A cycle stays, since no binding is replaced; as long as there is none, the last step alone decides.
theorem Moves.cycles (h : Moves u u') (htracing : u.tracing = true) (hacyclic : u.subst.Acyclic) :
    ∃ new, u'.steps = new.reverse ++ u.steps ∧ u'.subst = u.subst.replay new ∧
      (u'.subst.Acyclic ↔ ¬ ClosesCycle u.subst new) := by
  induction h with
  | refl => exact ⟨[], rfl, rfl, fun _ => not_closesCycle_nil _, fun _ => hacyclic⟩
  | @tail b c hmoves hmove ih =>
      obtain ⟨new, hsteps, hsubst, hiff⟩ := ih
      rcases hmove.cycles ((Moves.tracing hmoves).trans htracing) with ⟨hsteps', hsubst'⟩ | ⟨step, hsteps', hsubst', hlast⟩
      · exact ⟨new, hsteps'.trans hsteps, hsubst'.trans hsubst, hsubst' ▸ hiff⟩
      · refine ⟨new ++ [step], by simp [hsteps', hsteps], ?_, ?_⟩
        · rw [Substitution.replay_append, ← hsubst, hsubst']
        · rw [closesCycle_append, not_or, ← hiff, ← hsubst]
          constructor
          · intro hc
            have hb := hmove.extends.acyclic hc
            exact ⟨hb, (hlast hb).mp hc⟩
          · rintro ⟨hb, hlastNot⟩
            exact (hlast hb).mpr hlastNot

theorem run_cycles (hu : u.Ready) (hacyclic : u.subst.Acyclic) {g : Goal} (hg : g.Within u.supply) :
    ∃ new, (run g u.enableTracing).2.steps = new.reverse ++ u.steps ∧ (run g u).2.subst = u.subst.replay new ∧
      ((run g u).2.subst.Acyclic ↔ ¬ ClosesCycle u.subst new) := by
  have hmoves : Moves u.enableTracing (run g u.enableTracing).2 :=
    (solves_run g u.enableTracing).moves hu.enableTracing (List.forall_mem_singleton.mpr hg)
  rw [← (u.run_enableTracing g).1]
  exact hmoves.cycles rfl hacyclic

theorem unify_acyclic_iff (hacyclic : u.subst.Acyclic) (hcovers : ∀ v, u.subst.Binds v → u.supply.Covers v)
    (hwithin : u.subst.Within u.supply) :
    (∀ e a : Ty, e.Within u.supply → a.Within u.supply → ∃ new, (u.enableTracing.unify e a).2.steps = new.reverse ++ u.steps ∧
      (u.unify e a).2.subst = u.subst.replay new ∧ ((u.unify e a).2.subst.Acyclic ↔ ¬ ClosesCycle u.subst new) ∧
      ((u.unify e a).2.subst.Acyclic → ∀ t n, (u.unify e a).2.subst.depth ≤ n →
        (u.unify e a).2.subst.chase n t = (u.unify e a).2.apply t)) ∧
      ∀ e a : Row, e.Within u.supply → a.Within u.supply → ∃ new, (u.enableTracing.unifyRows e a).2.steps = new.reverse ++ u.steps ∧
        (u.unifyRows e a).2.subst = u.subst.replay new ∧
        ((u.unifyRows e a).2.subst.Acyclic ↔ ¬ ClosesCycle u.subst new) ∧
        ((u.unifyRows e a).2.subst.Acyclic → ∀ t n, (u.unifyRows e a).2.subst.depth ≤ n →
          (u.unifyRows e a).2.subst.chase n t = (u.unifyRows e a).2.apply t) := by
  have hu : u.Ready := ⟨hacyclic.chainless, hcovers, hwithin⟩
  constructor
  · intro e a he ha
    obtain ⟨new, hsteps, hsubst, hiff⟩ := run_cycles hu hacyclic (g := .types e a) ⟨he, ha⟩
    exact ⟨new, hsteps, hsubst, hiff, fun h t n hn => h.chase_eq hn t⟩
  · intro e a he ha
    obtain ⟨new, hsteps, hsubst, hiff⟩ := run_cycles hu hacyclic (g := .rows e a) ⟨he, ha⟩
    exact ⟨new, hsteps, hsubst, hiff, fun h t n hn => h.chase_eq hn t⟩

theorem unify_acyclic_iff_nested :
    let u := ofSupply ⟨0, 2⟩
    let e := Row.openRecord [("x", .record (.openRecord [] 0))] 0
    let a := Row.openRecord [("y", .record (.openRecord [] 1))] 1
    ∃ new, (u.enableTracing.unifyRows e a).2.steps = new.reverse ++ u.steps ∧ (u.unifyRows e a).2.subst = u.subst.replay new ∧
      ((u.unifyRows e a).2.subst.Acyclic ↔ ¬ ClosesCycle u.subst new) ∧
      ((u.unifyRows e a).2.subst.Acyclic → ∀ t n, (u.unifyRows e a).2.subst.depth ≤ n →
        (u.unifyRows e a).2.subst.chase n t = (u.unifyRows e a).2.apply t) := by
  intro u e a
  exact (unify_acyclic_iff Substitution.acyclic_empty (fun v hv => absurd hv (Substitution.not_binds_empty v))
    (Substitution.within_empty _)).2 e a (by decide) (by decide)

theorem unifyRows_closes_cycle :
    let u := ofSupply ⟨0, 2⟩
    let e := Row.openRecord [("x", .record (.openRecord [] 0))] 0
    let a := Row.openRecord [("y", .record (.openRecord [] 1))] 1
    u.subst.Acyclic ∧ (u.unifyRows e a).1 = .ok () ∧ ¬ (u.unifyRows e a).2.subst.Acyclic := by
  intro u e a
  refine ⟨Substitution.acyclic_empty, by decide, fun h => h (.row 0) ?_⟩
  have forth : (u.unifyRows e a).2.subst.Depends (.row 0) (.row 1) := by decide
  have back : (u.unifyRows e a).2.subst.Depends (.row 1) (.row 0) := by decide
  exact .head forth (.single back)

end Unifier

end RowTyping
