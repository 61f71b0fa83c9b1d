import RowTyping.Infer.Expr
import RowTyping.Proofs.EffectFlow
import RowTyping.Proofs.Inference.Schemes

namespace RowTyping

namespace Expr

def parts : Expr → List Expr
  | .app _ func args => func :: args
  | .letIn _ _ value _ => [value]
  | .cond _ c t e => [c, t, e]
  | .binary _ _ l r => [l, r]
  | .unary _ _ e => [e]
  | .record _ fs => fs.map Prod.snd
  | .field _ e _ => [e]
  | .update _ e fs => e :: fs.map Prod.snd
  | .list _ es => es
  | .tuple _ es => es
  | .caseOf _ e _ => [e]
  | _ => []

def scopes : Expr → List (List String × Expr)
  | .lambda _ params body => [(params, body)]
  | .letIn _ name _ body => [([name], body)]
  | .letRec _ bindings body => (body :: bindings.map Prod.snd).map fun e => (bindings.map Prod.fst, e)
  | .caseOf _ _ arms => arms.map fun arm => (arm.1.boundNames, arm.2)
  | _ => []

end Expr

abbrev Sites := Env → Expr → Prop

def Sites.anywhere : Sites := fun _ _ => True

/-- The expressions in another one, where the names that are bound on the way are local. -/
inductive Scoped : Env → Expr → Sites
  | here {env : Env} {e : Expr} : Scoped env e env e
  | part {env env' : Env} {e c e' : Expr} : c ∈ e.parts → Scoped env c env' e' → Scoped env e env' e'
  | scope {env env' : Env} {e c e' : Expr} {names : List String} {bs : List (String × Scheme)} : (names, c) ∈ e.scopes →
      (∀ x ∈ names, x ∈ bs.map Prod.fst) → Scoped (env.nest bs) c env' e' → Scoped env e env' e'

namespace Context

theorem solveEquation_enter (label : String) (c : Context) (q : Equation) :
    (c.enter label).solveEquation q = (c.solveEquation q).enter label := by
  have hunifier : (c.enter label).unifier = c.unifier := rfl
  rw [solveEquation_eq, solveEquation_eq, hunifier]
  rcases Unifier.run q.goal c.unifier with ⟨e | _, u⟩
  · cases hgoal : q.goal <;> rfl
  · rfl

theorem flush_enter (label : String) (c : Context) : (c.enter label).flush = c.flush.enter label := by
  have hfoldl (qs : List Equation) (c : Context) :
      qs.foldl solveEquation (c.enter label) = (qs.foldl solveEquation c).enter label := by
    induction qs generalizing c with
    | nil => rfl
    | cons q qs ih => rw [List.foldl_cons, solveEquation_enter, ih, List.foldl_cons]
  rw [flush_eq, flush_eq]
  exact hfoldl _ { c with equations := .empty }

end Context

def Substitution.Spares (s : Substitution) (capabilities : OrderedSet String) (env : Env) (names : List String) : Prop :=
  ∀ x ∈ names, ∀ scheme ∈ env.lookupLocal x, ∀ l ∈ capabilities, l ∉ (s.apply scheme.ty).latentLabels

def Substitution.Refines (s : Substitution) : TypedExpr → TypedExpr → Prop :=
  Relation.ReflTransGen fun e e' => ∃ t, s.Extends t ∧ e' = t.applyExpr e

theorem Substitution.Refines.mono {s s' : Substitution} (h : s'.Extends s) {e e' : TypedExpr} (he : s.Refines e e') :
    s'.Refines e e' :=
  Relation.ReflTransGen.mono (fun _ _ ⟨t, ht, heq⟩ => ⟨t, h.trans ht, heq⟩) _ _ he

structure Yields (session : Session) (env : Env) (e : Expr) (c : Context) (n : TypedExpr) (c' : Context) : Prop where
  tree : c'.subst.Refines ((inferExpr session env e).run c).1 n
  grows : c'.subst.Extends ((inferExpr session env e).run c).2.subst
  errors : c'.errors = [] → ((inferExpr session env e).run c).2.errors = []

namespace Yields

variable {session : Session} {env : Env} {e : Expr} {c c₁ c' : Context} {n : TypedExpr}

theorem mono (h : Yields session env e c n c₁) (hgrows : c'.subst.Extends c₁.subst) (herrors : c'.errors = [] → c₁.errors = []) :
    Yields session env e c n c' :=
  ⟨h.tree.mono hgrows, hgrows.trans h.grows, fun h' => h.errors (herrors h')⟩

theorem applyExpr (h : Yields session env e c n c') : Yields session env e c (c'.subst.applyExpr n) c' :=
  ⟨h.tree.tail ⟨c'.subst, .refl _, rfl⟩, h.grows, h.errors⟩

end Yields

namespace InferM

theorem ensures_checkCaptures (session : Session) (env : Env) (lambda : Expr) (c : Context)
    (hne : session.config.linearCapabilities ≠ []) : Ensures (checkCaptures session env lambda) c fun _ c' =>
      c'.subst = c.flush.subst ∧
        (c'.errors = [] → c.flush.subst.Spares session.config.linearCapabilities env lambda.freeNames) := by
  refine ensures_ite (fun h => absurd (List.isEmpty_iff.mp h) hne) fun _ => ensures_flush ?_
  -- A diagnostic of an earlier name is still there at the end.
  refine Ensures.mono (Q := fun _ c' => c'.subst = c.flush.subst ∧ (c'.errors = [] → c.flush.errors = [] ∧
    c.flush.subst.Spares session.config.linearCapabilities env lambda.freeNames)) ?_ fun _ _ h => h.imp_right fun h herrors => (h herrors).2
  generalize c.flush = c, lambda.freeNames = names
  induction names generalizing c with
  | nil => exact ⟨rfl, fun h => ⟨h, nofun⟩⟩
  | cons x names ih =>
      refine .bind (Q := fun _ c₁ => c₁.subst = c.subst ∧ (c₁.errors = [] →
        c.errors = [] ∧ c.subst.Spares session.config.linearCapabilities env [x])) ?_ fun _ c₁ ⟨hsubst, hfirst⟩ => ?_
      · dsimp only
        split
        next hnone => exact ⟨rfl, fun h => ⟨h, by simp [Substitution.Spares, hnone]⟩⟩
        next scheme hscheme =>
          rw [applied, bind_assoc]
          apply ensures_get
          rw [pure_bind]
          split
          next hfind =>
            refine ⟨rfl, fun h => ⟨h, fun x' hx' scheme' hscheme' l hl hmem => ?_⟩⟩
            obtain rfl := List.mem_singleton.mp hx'
            obtain rfl := Option.some.inj (hscheme.symm.trans hscheme')
            exact List.find?_eq_none.mp hfind l hmem (by simpa using hl)
          next => exact ⟨rfl, fun h => absurd h (List.append_ne_nil_of_right_ne_nil _ (List.cons_ne_nil _ _))⟩
      · refine (ih c₁).mono fun _ c' ⟨hsubst', hrest⟩ => ⟨hsubst'.trans hsubst, fun herrors => ?_⟩
        obtain ⟨herrors₁, hnames⟩ := hrest herrors
        obtain ⟨herrors₀, hname⟩ := hfirst herrors₁
        rw [hsubst] at hnames
        exact ⟨herrors₀, List.forall_mem_cons.mpr ⟨hname x (List.mem_singleton_self x), hnames⟩⟩

end InferM

namespace State

variable {s s' : State} {session : Session} {env : Env} {lambda : Expr} {c : Context}

structure Guards (s : State) (session : Session) (env : Env) (lambda : Expr) (c : Context) : Prop where
  owned : s.OwnsEnv env
  grows : session.config.linearCapabilities ≠ [] → s.subst.Extends c.flush.subst
  spares : s.context.errors = [] → c.flush.subst.Spares session.config.linearCapabilities env lambda.freeNames

theorem Follows.guards (h : s.Follows s') (hguards : s.Guards session env lambda c) : s'.Guards session env lambda c :=
  ⟨h.ownsEnv hguards.owned, fun hne => h.grows.trans (hguards.grows hne), fun herrors => hguards.spares (h.errors herrors)⟩

/-- The tree is that of a function which inference has met in the environment and the context. -/
structure Meets (s : State) (session : Session) (n : TypedExpr) (env : Env) (lambda : Expr) (c : Context) : Prop
    extends s.Guards session env lambda c where
  yields : Yields session env lambda c n s.context

theorem Follows.meets {n : TypedExpr} (h : s.Follows s') (hmeets : s.Meets session n env lambda c) :
    s'.Meets session n env lambda c :=
  ⟨h.guards hmeets.toGuards, hmeets.yields.mono h.grows h.errors⟩

end State

namespace InferM

variable {s : State} {session : Session} {env : Env}

theorem keeps_checkCaptures (hs : s.Ready) {c : Context} {label : String} (hc : s.context = c.enter label) (session : Session)
    (henv : s.OwnsEnv env) (lambda : Expr) :
    Keeps (checkCaptures session env lambda) s fun _ s' => s'.Guards session env lambda c := by
  have hflush : s.context.flush.subst = c.flush.subst := by
    rw [hc, Context.flush_enter]
    rfl
  have hkeeps : Keeps (checkCaptures session env lambda) s fun _ s' => s'.OwnsEnv env := by
    refine keeps_ite (fun _ => keeps_pure hs henv) fun _ => ?_
    refine (keeps_flush hs).bind fun _ s₁ h₁ hs₁ _ => ?_
    refine (keeps_forM hs₁ fun name _ s₂ _ hs₂ => ?_).mono fun _ s₂ h₂ _ _ => (h₁.trans h₂).ownsEnv henv
    split
    · exact keeps_pure hs₂ trivial
    · rw [applied, bind_assoc]
      apply keeps_get
      rw [pure_bind]
      split
      · exact keeps_pure hs₂ trivial
      · exact (keeps_report hs₂ _ _).mono fun _ _ _ _ _ => trivial
  by_cases hne : session.config.linearCapabilities = []
  · refine hkeeps.mono fun _ s' _ _ henv => ⟨henv, fun h => absurd hne h, fun _ _ _ _ _ l hl => ?_⟩
    rw [hne] at hl
    cases hl
  · refine (hkeeps.and_ensures (ensures_checkCaptures session env lambda s.context hne)).mono ?_
    rintro _ s' - - ⟨henv, hsubst, hspares⟩
    rw [hflush] at hsubst hspares
    exact ⟨henv, fun _ => hsubst ▸ .refl _, hspares⟩

end InferM

end RowTyping
