import RowTyping.Proofs.Elaboration
import RowTyping.Proofs.Inference.Stepwise
import RowTyping.Proofs.Soundness

namespace RowTyping

namespace ResolutionTable

variable {t : ResolutionTable}

theorem check_of_ground (h : ∀ e ∈ t.entries, e.ty.isGround = true) : t.check = .ok t := by
  have hfind : t.entries.find? (fun e => !e.ty.isGround) = none := List.find?_eq_none.mpr fun e he => by simp [h e he]
  rw [check, hfind]

theorem types_setMethod (t : ResolutionTable) (node : NodeId) (method : String) :
    (t.setMethod node method).entries.map Resolution.ty = t.entries.map Resolution.ty := by
  induction t with
  | nil => rfl
  | cons b t ih =>
      have hhere : (if b.1 = node then (b.1, b.2.map fun r => { r with method := some method }) else b).2.map Resolution.ty =
          b.2.map Resolution.ty := by
        split
        · exact List.map_map
        · rfl
      change ((if b.1 = node then (b.1, b.2.map fun r => { r with method := some method }) else b).2 ++
        (setMethod t node method).entries).map Resolution.ty = (b.2 ++ entries t).map Resolution.ty
      rw [List.map_append, List.map_append, hhere, ih]

theorem types_assignMethods (t : ResolutionTable) (e : TypedExpr) :
    (t.assignMethods e).entries.map Resolution.ty = t.entries.map Resolution.ty := by
  rw [assignMethods]
  induction e.nodes generalizing t with
  | nil => rfl
  | cons n ns ih =>
      rw [List.foldl_cons, ih]
      cases n.operatorMethod? with
      | none => rfl
      | some method => exact t.types_setMethod n.id method

theorem types_foldl (exprs : List TypedExpr) (t : ResolutionTable) :
    (exprs.foldl assignMethods t).entries.map Resolution.ty = t.entries.map Resolution.ty := by
  induction exprs generalizing t with
  | nil => rfl
  | cons e es ih => rw [List.foldl_cons, ih, types_assignMethods]

theorem check_foldl (h : ∀ e ∈ t.entries, e.ty.isGround = true) (exprs : List TypedExpr) :
    (exprs.foldl assignMethods t).check = .ok (exprs.foldl assignMethods t) := by
  refine check_of_ground fun e he => ?_
  have hty : e.ty ∈ t.entries.map Resolution.ty := t.types_foldl exprs ▸ List.mem_map_of_mem he
  obtain ⟨e', he', heq⟩ := List.mem_map.mp hty
  exact heq ▸ h e' he'

end ResolutionTable

namespace Context

structure Exportable (c : Context) : Prop where
  grounded : c.Grounded
  defaults : ∀ defaults, (c.applyDefaults defaults).resolved = c.resolved
  exports : ∀ exprs : List TypedExpr, ∃ table, (exprs.foldl ResolutionTable.assignMethods c.resolved).check = .ok table

theorem Grounded.exportable {c : Context} (hc : c.Grounded) : c.Exportable where
  grounded := hc
  defaults := hc.resolved_applyDefaults
  exports exprs := ⟨_, ResolutionTable.check_foldl hc exprs⟩

end Context

namespace Checker

variable {checker : Checker} {supply : Supply}

theorem internal_context (checker : Checker) (supply : Supply) : (checker.context supply).internal = none := by
  rw [context]
  split <;> rfl

theorem grounded_context (checker : Checker) (supply : Supply) : (checker.context supply).Grounded := by
  rw [Context.Grounded, (State.context_start checker supply none).2.2.2.2]
  exact List.forall_mem_nil _

theorem finish_ne_internal {c : Context} (hc : c.Exportable) (hinternal : c.internal = none) (exprs : List TypedExpr)
    (v : InvariantViolation) : (finish exprs c).1 ≠ .error (.internal v) := by
  obtain ⟨table, hexport⟩ := hc.exports exprs
  cases herrors : c.errors with
  | nil =>
      intro h
      simp only [finish, hinternal, herrors, hexport, Except.mapError] at h
      cases h
  | cons d ds =>
      intro h
      simp only [finish, hinternal, herrors] at h
      cases h

theorem mapped_internal {α : Type} {answer : Except CheckError ResolutionTable} {f : ResolutionTable → α} {v : InvariantViolation}
    (h : answer.map f = .error (.internal v)) : answer = .error (.internal v) := by
  cases answer with
  | error e => exact congrArg Except.error (Except.error.inj h)
  | ok table => cases h

theorem exportedProgram_ne_internal {x : List TypedDecl × Context} (hc : x.2.Exportable) (hinternal : x.2.internal = none)
    (v : InvariantViolation) : (checker.exportedProgram x).1 ≠ .error (.internal v) :=
  fun h => finish_ne_internal hc hinternal _ v (mapped_internal h)

theorem exported_ne_internal {x : TypedExpr × Context} (hc : x.2.Exportable) (hinternal : x.2.internal = none)
    (v : InvariantViolation) : (checker.exported x).1 ≠ .error (.internal v) :=
  fun h => finish_ne_internal hc hinternal _ v (mapped_internal h)

def Reaches (checker : Checker) (supply : Supply) (c : Context) : Prop :=
  ∃ ks, Context.Run checker.registry (checker.context supply) ks c ∧ ∀ k ∈ ks, k.isGround = true

theorem Reaches.internal {c : Context} (h : checker.Reaches supply c) : c.internal = none := by
  obtain ⟨ks, hrun, hks⟩ := h
  exact hrun.internal_iff.mpr ⟨checker.internal_context supply, hks⟩

theorem Reaches.exportable {c : Context} (h : checker.Reaches supply c) : c.Exportable := by
  obtain ⟨ks, hrun, -⟩ := h
  exact (hrun.grounded (checker.grounded_context supply)).exportable

theorem reaches_checking (checker : Checker) (supply : Supply) (p : Program) : checker.Reaches supply (checker.checking supply p).2 := by
  have h : InferM.Stepwise (checker.session p.signatures).registry (checkDecls (checker.session p.signatures) checker.globals p.decls) :=
    InferM.stepwise_checkDecls checker.globals p.decls
  exact h.steps (checker.context supply)

theorem reaches_inferring (checker : Checker) (supply : Supply) (signatures : EffectSignatures) (e : Expr) :
    checker.Reaches supply (checker.inferring supply signatures e).2 := by
  have h : InferM.Stepwise (checker.session signatures).registry (inferTopLevel (checker.session signatures) checker.globals e) :=
    InferM.stepwise_topLevel e (InferM.stepwise_inferExpr checker.globals e)
  exact (InferM.stepwise_within _ h).steps (checker.context supply)

theorem internal_unreachable (checker : Checker) (supply : Supply) :
    (∀ ks c, Context.Run checker.registry (checker.context supply) ks c →
      c.Exportable ∧ (c.internal = none ↔ ∀ k ∈ ks, k.isGround = true)) ∧
    (∀ p, checker.Reaches supply (checker.checking supply p).2 ∧ ∀ v, (checker.checkProgram supply p).1 ≠ .error (.internal v)) ∧
    ∀ signatures e, checker.Reaches supply (checker.inferring supply signatures e).2 ∧
      ∀ v, (checker.checkExpr supply signatures e).1 ≠ .error (.internal v) := by
  refine ⟨fun ks c hrun => ⟨(hrun.grounded (checker.grounded_context supply)).exportable, ?_⟩, fun p => ?_, fun signatures e => ?_⟩
  · exact hrun.internal_iff.trans (and_iff_right (checker.internal_context supply))
  · have hreaches := checker.reaches_checking supply p
    rw [checkProgram_eq]
    exact ⟨hreaches, exportedProgram_ne_internal hreaches.exportable hreaches.internal⟩
  · have hreaches := checker.reaches_inferring supply signatures e
    rw [checkExpr_eq]
    exact ⟨hreaches, exported_ne_internal hreaches.exportable hreaches.internal⟩

end Checker

end RowTyping
