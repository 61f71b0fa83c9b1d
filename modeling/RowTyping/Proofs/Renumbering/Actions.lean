import RowTyping.Proofs.Renumbering.Contexts

namespace RowTyping

variable {r : Registry}

namespace Sketch

variable {π : Renumbering} {k : Sketch} {c : Context}

theorem Renders.apply (h : k.Renders π c) (hπ : π.Ascends) (t : Ty) : c.apply (t.renumber π) = (k.context.apply t).renumber π := by
  rw [Context.apply, Unifier.apply, h.unifier.subst, Substitution.apply_renumber _ hπ]
  rfl

def tell (k : Sketch) (d : Diagnostic) : Sketch :=
  ⟨k.context, k.reports ++ [.plain d]⟩

theorem Renders.tell (h : k.Renders π c) (d : Diagnostic) : (k.tell d).Renders π (c.pushError d) := by
  refine ⟨⟨h.unifier.subst, h.unifier.supply⟩, ?_, h.equations, h.classes, h.path, h.resolved, h.internal⟩
  rw [Sketch.tell, List.map_append, ← h.errors]
  rfl

section Solving

theorem shown_eq (c : Context) (g : Goal) : c.shown g = (c.unifier.applyGoal g).shown := by
  cases g <;> rfl

def solveEquation (k : Sketch) (q : Equation) : Sketch :=
  let run := Unifier.run q.goal k.context.unifier
  let failures := match run.1 with
    | .ok () => []
    | .error e => [.equation e (run.2.applyGoal q.goal) q.provenance]
  ⟨{ k.context with unifier := run.2 }, k.reports ++ failures⟩

theorem Renders.solveEquation (h : k.Renders π c) (hπ : π.Ascends) (q : Equation) :
    (k.solveEquation q).Renders π (c.solveEquation (q.renumber π)) := by
  have hrun : (Unifier.run (q.goal.renumber π) c.unifier).1 = (Unifier.run q.goal k.context.unifier).1.mapError (UnifyError.renumber π) ∧
      Unifier.Renders π (Unifier.run q.goal k.context.unifier).2 (Unifier.run (q.goal.renumber π) c.unifier).2 :=
    Unifier.parallel_attempt hπ q.goal k.context.unifier c.unifier h.unifier
  have herrors := c.unifier.run_errors (q.goal.renumber π)
  have hgoal : (q.renumber π).goal = q.goal.renumber π := rfl
  rw [Sketch.solveEquation, Context.solveEquation_eq, hgoal]
  generalize Unifier.run q.goal k.context.unifier = x at hrun ⊢
  generalize Unifier.run (q.goal.renumber π) c.unifier = x' at hrun herrors ⊢
  obtain ⟨answer, u⟩ := x
  obtain ⟨answer', u'⟩ := x'
  obtain ⟨rfl, hu⟩ := hrun
  replace herrors : u'.errors = k.reports.map fun r => (r.renumber π).diagnostic := herrors.trans h.errors
  cases answer with
  | ok a =>
      refine ⟨hu, ?_, h.equations, h.classes, h.path, h.resolved, h.internal⟩
      rw [List.append_nil]
      exact herrors
  | error e =>
      have hshown : Context.shown { c with unifier := u' } (q.goal.renumber π) = ((u.applyGoal q.goal).renumber π).shown := by
        rw [shown_eq, Unifier.applyGoal_renumber hπ hu]
      refine ⟨⟨hu.subst, hu.supply⟩, ?_, h.equations, h.classes, h.path, h.resolved, h.internal⟩
      rw [List.map_append, ← herrors]
      exact congrArg (fun x : String × String => u'.errors ++ [(e.renumber π).diagnostic x.1 x.2 q.provenance]) hshown

theorem Renders.solveEquations (h : k.Renders π c) (hπ : π.Ascends) (qs : List Equation) :
    (qs.foldl Sketch.solveEquation k).Renders π ((qs.map (Equation.renumber π)).foldl Context.solveEquation c) := by
  induction qs generalizing k c with
  | nil => exact h
  | cons q qs ih => exact ih (h.solveEquation hπ q)

def flush (k : Sketch) : Sketch :=
  k.context.equations.toList.foldl Sketch.solveEquation ⟨{ k.context with equations := .empty }, k.reports⟩

theorem Renders.flush (h : k.Renders π c) (hπ : π.Ascends) : k.flush.Renders π c.flush := by
  have hempty : Renders π ⟨{ k.context with equations := .empty }, k.reports⟩ { c with equations := .empty } :=
    ⟨h.unifier, h.errors, rfl, h.classes, h.path, h.resolved, h.internal⟩
  rw [Context.flush_eq, h.equations, Scopes.toList_map]
  exact hempty.solveEquations hπ _

end Solving

end Sketch

namespace InferM

theorem uniform_log (e : Variant r → Event) : Uniform plainly fun v => modify (Context.log (e v)) :=
  uniform_modify fun k => ⟨k, fun _ _ h => ⟨h.unifier, h.errors, h.equations, h.classes, h.path, h.resolved, h.internal⟩⟩

theorem uniform_logAll (es : Variant r → List Event) : Uniform plainly fun v => modify (Context.logAll (es v)) :=
  uniform_modify fun k => ⟨k, fun _ _ h => ⟨h.unifier, h.errors, h.equations, h.classes, h.path, h.resolved, h.internal⟩⟩

theorem uniform_note (node : NodeId) (t : Variant r → Ty) (rule : Variant r → InferRule) :
    Uniform plainly fun v => note node (t v) (rule v) :=
  uniform_modify fun k => ⟨k, fun _ _ h => ⟨h.unifier, h.errors, h.equations, h.classes, h.path, h.resolved, h.internal⟩⟩

theorem uniform_report (node : NodeId) (d : Diagnostic) : Uniform plainly fun _ : Variant r => report node d := by
  refine uniform_modify fun k =>
    ⟨k.tell (if d.path.isEmpty then d.located k.context.path (some node) else d), fun v c h => ?_⟩
  rw [Context.report, h.path]
  exact h.tell _

theorem uniform_addEquation (node : NodeId) (reason : Reason) (g : Goal) :
    Uniform plainly fun v : Variant r => modify (Context.addEquation node reason (g.renumber v.numbers)) := by
  refine uniform_modify fun k => ⟨⟨k.context.addEquation node reason g, k.reports⟩, fun v c h => ?_⟩
  refine ⟨h.unifier, h.errors, ?_, h.classes, h.path, h.resolved, h.internal⟩
  simp only [Context.addEquation, Scopes.push, Scopes.map_append, h.equations, h.path]
  rfl

theorem uniform_equate (node : NodeId) (reason : Reason) (e a : Ty) :
    Uniform plainly fun v : Variant r => equate node reason (e.renumber v.numbers) (a.renumber v.numbers) :=
  uniform_addEquation node reason (.types e a)

theorem uniform_equateRows (node : NodeId) (reason : Reason) (e a : Row) :
    Uniform plainly fun v : Variant r => equateRows node reason (e.renumber v.numbers) (a.renumber v.numbers) :=
  uniform_addEquation node reason (.rows e a)

theorem uniform_equateTails (node : NodeId) (e : Row) (tails : List RowVarId) :
    Uniform plainly fun v : Variant r =>
      (tails.map v.numbers.row).forM fun tail => equateRows node .effectJoin (e.renumber v.numbers) (.openEffects [] tail) := by
  simp only [List.forM_eq_forM, List.forM_map]
  refine uniform_forM fun tail _ => ?_
  have h := uniform_equateRows (r := r) node .effectJoin e (.openEffects [] tail)
  simpa only [Row.renumber_openEffects] using h

theorem uniform_addClass (className : String) (t : Ty) (node : NodeId) (origin : Origin) :
    Uniform plainly fun v : Variant r => addClass className (t.renumber v.numbers) node origin := by
  refine uniform_modify fun k => ⟨⟨k.context.addClass className t node origin, k.reports⟩, fun v c h => ?_⟩
  refine ⟨h.unifier, h.errors, h.equations, ?_, h.path, h.resolved, h.internal⟩
  simp only [Context.addClass, Scopes.push, Scopes.map_append, h.classes, h.path]
  rfl

theorem uniform_deferClasses (ks : List ClassConstraint) :
    Uniform plainly fun v : Variant r => modify (Context.deferClasses (ks.map (ClassConstraint.renumber v.numbers))) := by
  refine uniform_modify fun k => ⟨⟨k.context.deferClasses ks, k.reports⟩, fun v c h => ?_⟩
  refine ⟨h.unifier, h.errors, h.equations, ?_, h.path, h.resolved, h.internal⟩
  simp only [Context.deferClasses, Scopes.map_append, h.classes]

theorem uniform_pushClassScope : Uniform plainly fun _ : Variant r => modify Context.pushClassScope := by
  refine uniform_modify fun k => ⟨⟨k.context.pushClassScope, k.reports⟩, fun v c h => ?_⟩
  refine ⟨h.unifier, h.errors, h.equations, ?_, h.path, h.resolved, h.internal⟩
  simp only [Context.pushClassScope, Scopes.map_pushScope, h.classes]

theorem uniform_takeClassScope :
    Uniform (fun π => List.map (ClassConstraint.renumber π)) fun _ : Variant r => takeClassScope := by
  intro k
  refine ⟨k.context.classes.takeScope.1, ⟨{ k.context with classes := k.context.classes.takeScope.2 }, k.reports⟩, fun v c h => ?_⟩
  have htake := Scopes.takeScope_map (ClassConstraint.renumber v.numbers) k.context.classes
  rw [← h.classes] at htake
  exact ⟨congrArg Prod.fst htake,
    ⟨h.unifier, h.errors, h.equations, congrArg Prod.snd htake, h.path, h.resolved, h.internal⟩⟩

theorem uniform_freshTypeVar : Uniform Renumbering.type fun _ : Variant r => freshTypeVar := by
  intro k
  refine ⟨k.context.unifier.supply.nextType,
    ⟨{ k.context with unifier := { k.context.unifier with supply := k.context.unifier.supply.freshType.2 } }, k.reports⟩,
    fun v c h => ⟨h.unifier.supply.nextType, ?_⟩⟩
  exact ⟨⟨h.unifier.subst, h.unifier.supply.freshType⟩, h.errors, h.equations, h.classes, h.path, h.resolved, h.internal⟩

theorem uniform_freshRow : Uniform Renumbering.row fun _ : Variant r => freshRow := by
  intro k
  refine ⟨k.context.unifier.supply.nextRow,
    ⟨{ k.context with unifier := { k.context.unifier with supply := k.context.unifier.supply.freshRow.2 } }, k.reports⟩,
    fun v c h => ⟨h.unifier.supply.nextRow, ?_⟩⟩
  exact ⟨⟨h.unifier.subst, h.unifier.supply.freshRow⟩, h.errors, h.equations, h.classes, h.path, h.resolved, h.internal⟩

theorem uniform_freshType : Uniform Ty.renumber fun _ : Variant r => freshType :=
  uniform_freshTypeVar.bind fun v => uniform_pure (Ty.ofVar v)

theorem uniform_flush : Uniform plainly fun _ : Variant r => flush :=
  uniform_modify fun k => ⟨k.flush, fun v _ h => h.flush v.ascends⟩

theorem uniform_applied (t : Ty) : Uniform Ty.renumber fun v : Variant r => applied (t.renumber v.numbers) :=
  uniform_gets fun k => ⟨k.context.apply t, fun v _ h => h.apply v.ascends t⟩

theorem uniform_within {α : Type} {σ : Renumbering → α → α} (label : String) {m : Variant r → InferM α} (hm : Uniform σ m) :
    Uniform σ fun v => within label (m v) := by
  have henter : Uniform plainly fun _ : Variant r => modify (Context.enter label) := by
    refine uniform_modify fun k => ⟨⟨k.context.enter label, k.reports⟩, fun v c h => ?_⟩
    exact ⟨h.unifier, h.errors, h.equations, h.classes, congrArg (·.push label) h.path, h.resolved, h.internal⟩
  have hleave : Uniform plainly fun _ : Variant r => modify Context.leave := by
    refine uniform_modify fun k => ⟨⟨k.context.leave, k.reports⟩, fun v c h => ?_⟩
    exact ⟨h.unifier, h.errors, h.equations, h.classes, congrArg SourcePath.pop h.path, h.resolved, h.internal⟩
  refine henter.bind fun _ => ?_
  refine hm.bind fun a => ?_
  exact hleave.bind fun _ => uniform_pure a

end InferM

end RowTyping
