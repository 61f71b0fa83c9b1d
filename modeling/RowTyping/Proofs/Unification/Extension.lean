import RowTyping.Proofs.Absorption
import RowTyping.Proofs.Unification.Cycles
import RowTyping.Proofs.Unification.Stability

namespace RowTyping

open Relation

def Action.target? : Action → Option Var
  | .bind v _ => some (.type v)
  | .bindTail r _ => some (.row r)
  | _ => none

def Step.targets (steps : List Step) : List Var :=
  steps.filterMap fun step => step.action.target?

theorem Action.target?_of_binds {action : Action} (h : action.binds = false) : action.target? = none := by
  cases action <;> first | rfl | cases h

theorem Step.targets_append (steps : List Step) (step : Step) :
    targets (steps ++ [step]) = targets steps ++ step.action.target?.toList := by
  rw [targets, List.filterMap_append]
  cases h : step.action.target? <;> simp [targets, h]

namespace Substitution

variable {s s' : Substitution} {x : Var}

theorem binds_onto {action : Action} : (action.onto s).Binds x ↔ s.Binds x ∨ x ∈ action.target? := by
  cases action with
  | bind v t => exact binds_bindType.trans (or_comm.trans (or_congr_right (by simp [Action.target?, eq_comm])))
  | bindTail r row => exact binds_bindRow.trans (or_comm.trans (or_congr_right (by simp [Action.target?, eq_comm])))
  | _ => simp [Action.onto, Action.target?]

theorem binds_replay {steps : List Step} : (s.replay steps).Binds x ↔ s.Binds x ∨ x ∈ Step.targets steps := by
  induction steps using List.reverseRecOn with
  | nil => simp [replay, Step.targets]
  | append_singleton steps step ih =>
      rw [replay_append, binds_onto, ih, Step.targets_append, List.mem_append, or_assoc, Option.mem_toList, Option.mem_def]

def Absorbs (s' s : Substitution) : Prop :=
  (∀ t : Ty, t.Ordered → s'.apply (s.apply t) = s'.apply t) ∧
    ∀ r : Row, r.Ordered → s'.applyRow (s.applyRow r) = s'.applyRow r

theorem Acyclic.absorbs (hacyclic : s'.Acyclic) (hord : s'.Ordered) (h : s'.Extends s) : s'.Absorbs s :=
  hacyclic.chase_absorbed hord h.honours (hord.of_extends h) s.depth

end Substitution

namespace Unifier

/-- The new steps lead from one state to the other. No two of them bind the same variable, and none binds one that was bound. -/
structure Extension (u u' : Unifier) (new : List Step) : Prop where
  subst : u'.subst = u.subst.replay new
  once : (Step.targets new).Nodup
  unbound : ∀ v ∈ Step.targets new, ¬ u.subst.Binds v
  keeps : u'.subst.Extends u.subst
  nextType : u'.supply.nextType = u.supply.nextType
  nextRow : u.supply.nextRow ≤ u'.supply.nextRow
  errors : u'.errors = u.errors

variable {u u' u'' : Unifier} {new : List Step}

theorem Extension.refl (u : Unifier) : Extension u u [] :=
  ⟨rfl, .nil, List.forall_mem_nil _, .refl _, rfl, Nat.le_refl _, rfl⟩

theorem Extension.skip (h : Extension u u' new) : Extension u u'.skipRow new :=
  ⟨h.subst, h.once, h.unbound, h.keeps, h.nextType, Nat.le_succ_of_le h.nextRow, h.errors⟩

-- A variable without a binding now had none at the start, and none of the steps taken since has bound it.
theorem Extension.step (h : Extension u u' new) (step : Step) (hsubst : u''.subst = step.action.onto u'.subst)
    (hunbound : ∀ v ∈ step.action.target?, ¬ u'.subst.Binds v) (hkeeps : u''.subst.Extends u'.subst)
    (hsupply : u''.supply = u'.supply) (herrors : u''.errors = u'.errors) : Extension u u'' (new ++ [step]) where
  subst := by rw [hsubst, h.subst, Substitution.replay_append]
  once := by
    have hstep : step.action.target?.toList.Nodup := by cases step.action.target? <;> simp
    rw [Step.targets_append]
    refine List.nodup_append.mpr ⟨h.once, hstep, fun v hv w hw heq => ?_⟩
    apply hunbound w (Option.mem_toList.mp hw)
    rw [h.subst, Substitution.binds_replay]
    exact .inr (heq ▸ hv)
  unbound v hv := by
    rw [Step.targets_append] at hv
    rcases List.mem_append.mp hv with hv | hv
    · exact h.unbound v hv
    · intro hbinds
      apply hunbound v (Option.mem_toList.mp hv)
      rw [h.subst, Substitution.binds_replay]
      exact .inl hbinds
  keeps := hkeeps.trans h.keeps
  nextType := hsupply ▸ h.nextType
  nextRow := hsupply ▸ h.nextRow
  errors := herrors.trans h.errors

theorem Move.extension (h : Move u' u'') (hu : Extension u u' new) :
    (u''.steps = u'.steps ∧ Extension u u'' new) ∨
      ∃ step, (u'.tracing = true → u''.steps = step :: u'.steps) ∧ Extension u u'' (new ++ [step]) := by
  have hextends := h.extends
  cases h with
  | note action left right hbinds =>
      refine .inr ⟨⟨action, left, right⟩, fun htracing => record_steps htracing .., ?_⟩
      refine hu.step _ (Action.onto_of_binds hbinds _).symm ?_ hextends rfl rfl
      rw [Action.target?_of_binds hbinds]
      exact nofun
  | skip => exact .inl ⟨rfl, hu.skip⟩
  | bindType v t t₀ hv =>
      refine .inr ⟨⟨.bind v.id t, .var v, t⟩, fun htracing => record_steps htracing .., ?_⟩
      refine hu.step _ rfl ?_ hextends rfl rfl
      rintro _ ⟨⟩
      exact hv
  | bindRow r row hr =>
      refine .inr ⟨⟨.bindTail r row, .record row, .record row⟩, fun htracing => record_steps htracing .., ?_⟩
      refine hu.step _ rfl ?_ hextends rfl rfl
      rintro _ ⟨⟩
      exact hr

theorem Moves.extension (h : Moves u u') (htracing : u.tracing = true) :
    ∃ new, u'.steps = new.reverse ++ u.steps ∧ Extension u u' new := by
  induction h with
  | refl => exact ⟨[], rfl, .refl u⟩
  | tail hmoves hmove ih =>
      obtain ⟨new, hsteps, hu⟩ := ih
      rcases hmove.extension hu with ⟨hsame, hu'⟩ | ⟨step, hstep, hu'⟩
      · exact ⟨new, hsame.trans hsteps, hu'⟩
      · refine ⟨new ++ [step], ?_, hu'⟩
        rw [hstep ((Moves.tracing hmoves).trans htracing), hsteps, List.reverse_append]
        rfl

-- What a run does that records its steps is what it does if it does not.
theorem run_extension (hu : u.Ready) {g : Goal} (hg : g.Within u.supply) :
    (∃ new, (run g u.enableTracing).2.steps = new.reverse ++ u.steps ∧ Extension u (run g u).2 new) ∧
      ((run g u).2.subst.Acyclic → (run g u).2.subst.Absorbs u.subst) := by
  have moves := (solves_run g u).moves hu (List.forall_mem_singleton.mpr hg)
  refine ⟨?_, fun hacyclic => hacyclic.absorbs (moves.ready hu).within.ordered moves.extends⟩
  have recorded := (solves_run g u.enableTracing).moves hu.enableTracing (List.forall_mem_singleton.mpr hg)
  obtain ⟨new, hsteps, h⟩ := recorded.extension rfl
  obtain ⟨hsubst, hsupply⟩ := u.run_enableTracing g
  exact ⟨new, hsteps, hsubst ▸ h.subst, h.once, h.unbound, hsubst ▸ h.keeps, hsupply ▸ h.nextType, hsupply ▸ h.nextRow, moves.errors⟩

theorem unify_extends (hacyclic : u.subst.Acyclic) (hcovers : ∀ v, u.subst.Binds v → u.supply.Covers v)
    (hwithin : u.subst.Within u.supply) :
    (∀ e a : Ty, e.Within u.supply → a.Within u.supply →
      (∃ new, (u.enableTracing.unify e a).2.steps = new.reverse ++ u.steps ∧ Extension u (u.unify e a).2 new) ∧
        ((u.unify e a).2.subst.Acyclic → (u.unify e a).2.subst.Absorbs u.subst)) ∧
    ∀ e a : Row, e.Within u.supply → a.Within u.supply →
      (∃ new, (u.enableTracing.unifyRows e a).2.steps = new.reverse ++ u.steps ∧ Extension u (u.unifyRows e a).2 new) ∧
        ((u.unifyRows e a).2.subst.Acyclic → (u.unifyRows e a).2.subst.Absorbs u.subst) := by
  have hu : u.Ready := ⟨hacyclic.chainless, hcovers, hwithin⟩
  exact ⟨fun e a he ha => run_extension hu (g := .types e a) ⟨he, ha⟩,
    fun e a he ha => run_extension hu (g := .rows e a) ⟨he, ha⟩⟩

theorem unify_extends_refused :
    let u := { ofSupply ⟨1, 3⟩ with subst := Substitution.empty.bindRow 2 (.openRecord [("x", .int)] 1) }
    let e := Ty.fn [.record (.openRecord [("y", .ofVar 0)] 0)] none .bool
    let a := Ty.fn [.record (.openRecord [] 2)] none .int
    u.subst.lookupRow 2 = some (.openRecord [("x", .int)] 1) ∧ (u.unify e a).1 = .error (.mismatch .bool .int) ∧
      (u.unify e a).2.subst.lookupRow 1 = some (.openRecord [("y", .ofVar 0)] 3) ∧
      (∃ new, (u.enableTracing.unify e a).2.steps = new.reverse ++ u.steps ∧ Extension u (u.unify e a).2 new) ∧
      (u.unify e a).2.subst.Absorbs u.subst := by
  intro u e a
  have hstart : u.subst.Ranked fun v => if v = .row 2 then 1 else 0 := by decide
  have hfinal : (u.unify e a).2.subst.Ranked fun v =>
      if v = .row 0 then 3 else if v = .row 2 then 2 else if v = .row 1 then 1 else 0 := by decide
  have hbound {id : RowVarId} {r : Row} (h : u.subst.lookupRow id = some r) : id = 2 ∧ r = .openRecord [("x", .int)] 1 := by
    simp only [u, Substitution.lookupRow_bindRow] at h
    split at h
    next hid => exact ⟨hid, (Option.some.inj h).symm⟩
    next => cases h
  have hextends := (unify_extends hstart.acyclic (u := u) ?_ ?_).1 e a (by decide) (by decide)
  · exact ⟨by decide, by decide, by decide, hextends.1, hextends.2 hfinal.acyclic⟩
  · rintro (id | id) ⟨r, hr⟩
    · cases hr
    · rw [(hbound hr).1]
      decide
  · refine ⟨nofun, fun id r hr => ?_⟩
    rw [(hbound hr).2]
    decide

end Unifier

end RowTyping
