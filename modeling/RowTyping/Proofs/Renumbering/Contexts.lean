import RowTyping.Infer.Boundary
import RowTyping.Proofs.Inference.Flush
import RowTyping.Proofs.Inference.Resolving
import RowTyping.Proofs.Renumbering.Reports

namespace RowTyping

variable {π : Renumbering}

def Equation.renumber (π : Renumbering) (q : Equation) : Equation :=
  { q with goal := q.goal.renumber π }

def ClassConstraint.renumber (π : Renumbering) (k : ClassConstraint) : ClassConstraint :=
  { k with ty := k.ty.renumber π }

def Resolution.renumber (π : Renumbering) (e : Resolution) : Resolution :=
  { e with ty := e.ty.renumber π }

def ResolutionTable.renumber (π : Renumbering) (t : ResolutionTable) : ResolutionTable :=
  t.mapEntries (Resolution.renumber π)

def InvariantViolation.renumber (π : Renumbering) : InvariantViolation → InvariantViolation
  | .nonGroundResolution className t node => .nonGroundResolution className (t.renumber π) node
  | .nonGroundExport className t node => .nonGroundExport className (t.renumber π) node

namespace Scopes

variable {α : Type} (f : α → α) (s : Scopes α)

theorem innermost_map : (s.map f).innermost = s.innermost.map f := by
  obtain ⟨root, nested⟩ := s
  cases nested <;> rfl

end Scopes

/-- A context and reports of its diagnostics; the diagnostics, the steps and the events themselves are not looked at. -/
structure Sketch where
  context : Context
  reports : List Report

namespace Sketch

structure Renders (π : Renumbering) (k : Sketch) (c : Context) : Prop where
  unifier : k.context.unifier.Renders π c.unifier
  errors : c.errors = k.reports.map fun r => (r.renumber π).diagnostic
  equations : c.equations = k.context.equations.map (Equation.renumber π)
  classes : c.classes = k.context.classes.map (ClassConstraint.renumber π)
  path : c.path = k.context.path
  resolved : c.resolved = k.context.resolved.renumber π
  internal : c.internal = k.context.internal.map (InvariantViolation.renumber π)

end Sketch

/-- One way to do inference with the given instances: which numbers the variables take, and whether the steps are traced.
The types that ambiguous variables default to keep their numbers. -/
structure Variant (r : Registry) where
  numbers : Renumbering
  ascends : numbers.Ascends
  defaults : ∀ t, r.IsDefault t → t.renumber numbers = t
  traced : Bool

def Variant.session {r : Registry} (v : Variant r) (session : Session) : Session :=
  { session with config := { session.config with trace := v.traced } }

namespace Variant

variable {r : Registry} (v : Variant r) (session : Session)

@[simp]
theorem registry_session : (v.session session).registry = session.registry := rfl

@[simp]
theorem signatures_session : (v.session session).signatures = session.signatures := rfl

@[simp]
theorem encoding_session : (v.session session).config.encoding = session.config.encoding := rfl

@[simp]
theorem linearCapabilities_session : (v.session session).config.linearCapabilities = session.config.linearCapabilities := rfl

end Variant

namespace InferM

variable {r : Registry} {α β γ : Type} {σ : Renumbering → α → α} {σ' : Renumbering → β → β}

/-- From renderings of one sketch, all variants end in renderings of one sketch, with one answer up to the numbers. -/
def Uniform (σ : Renumbering → α → α) (m : Variant r → InferM α) : Prop :=
  ∀ k : Sketch, ∃ a k', ∀ (v : Variant r) c, k.Renders v.numbers c →
    ((m v).run c).1 = σ v.numbers a ∧ Sketch.Renders v.numbers k' ((m v).run c).2

abbrev plainly {α : Type} (_ : Renumbering) (a : α) : α := a

theorem uniform_pure (a : α) : Uniform σ fun v : Variant r => pure (σ v.numbers a) :=
  fun k => ⟨a, k, fun _ _ h => ⟨rfl, h⟩⟩

theorem uniform_pure_of_eq {b : Variant r → α} (a : α) (h : ∀ v, b v = σ v.numbers a) : Uniform σ fun v => pure (b v) := by
  simp only [h]
  exact uniform_pure a

theorem Uniform.bind {m : Variant r → InferM α} {f : Variant r → α → InferM β} (hm : Uniform σ m)
    (hf : ∀ a, Uniform σ' fun v => f v (σ v.numbers a)) : Uniform σ' fun v => m v >>= f v := by
  intro k
  obtain ⟨a, k₁, hm⟩ := hm k
  obtain ⟨b, k₂, hf⟩ := hf a k₁
  refine ⟨b, k₂, fun v c h => ?_⟩
  obtain ⟨ha, h₁⟩ := hm v c h
  have hrun : (m v >>= f v).run c = (f v ((m v).run c).1).run ((m v).run c).2 := rfl
  rw [hrun, ha]
  exact hf v _ h₁

theorem uniform_modify {g : Variant r → Context → Context}
    (hg : ∀ k : Sketch, ∃ k' : Sketch, ∀ (v : Variant r) c, k.Renders v.numbers c → k'.Renders v.numbers (g v c)) :
    Uniform plainly fun v => modify (g v) := by
  intro k
  obtain ⟨k', hk'⟩ := hg k
  exact ⟨(), k', fun v c h => ⟨rfl, hk' v c h⟩⟩

theorem uniform_get {f : Variant r → Context → InferM α} {F : Sketch → Variant r → InferM α}
    (hF : ∀ (k : Sketch) v c, k.Renders v.numbers c → f v c = F k v) (h : ∀ k, Uniform σ (F k)) :
    Uniform σ fun v => get >>= f v := by
  intro k
  obtain ⟨a, k', hk'⟩ := h k k
  refine ⟨a, k', fun v c hc => ?_⟩
  have hrun : (get >>= f v).run c = (f v c).run c := rfl
  rw [hrun, hF k v c hc]
  exact hk' v c hc

theorem uniform_gets {g : Variant r → Context → α}
    (hg : ∀ k : Sketch, ∃ a, ∀ (v : Variant r) c, k.Renders v.numbers c → g v c = σ v.numbers a) :
    Uniform σ fun v => get >>= fun c => pure (g v c) := by
  intro k
  obtain ⟨a, ha⟩ := hg k
  exact ⟨a, k, fun v c h => ⟨ha v c h, h⟩⟩

theorem uniform_ite {p : Prop} [Decidable p] {m m' : Variant r → InferM α} (hm : p → Uniform σ m)
    (hm' : ¬ p → Uniform σ m') : Uniform σ fun v => if p then m v else m' v := by
  by_cases h : p
  · simp only [if_pos h]
    exact hm h
  · simp only [if_neg h]
    exact hm' h

section Lists

variable {f : Variant r → α → InferM Unit} {g : Variant r → α → InferM β} {as : List α}

theorem uniform_forM (h : ∀ a ∈ as, Uniform plainly fun v => f v a) : Uniform plainly fun v => as.forM (f v) := by
  induction as with
  | nil => exact uniform_pure (σ := plainly) PUnit.unit
  | cons a as ih =>
      refine (h a List.mem_cons_self).bind fun _ => ?_
      refine ih fun a' ha' => ?_
      exact h a' (List.mem_cons_of_mem a ha')

theorem uniform_mapM (h : ∀ a ∈ as, Uniform σ' fun v => g v a) :
    Uniform (fun π => List.map (σ' π)) fun v => as.mapM (g v) := by
  induction as with
  | nil => exact uniform_pure (σ := fun π => List.map (σ' π)) []
  | cons a as ih =>
      simp only [List.mapM_cons]
      refine (h a List.mem_cons_self).bind fun b => ?_
      refine (ih fun a' ha' => h a' (List.mem_cons_of_mem a ha')).bind fun bs => ?_
      exact uniform_pure (σ := fun π => List.map (σ' π)) (b :: bs)

end Lists

end InferM

end RowTyping
