import Mathlib.Data.Set.Basic
import RowTyping.Proofs.Accounting
import RowTyping.Proofs.Inference.Stacked
import RowTyping.Proofs.Unmentioned

namespace RowTyping

def undefinedVariable (x : String) : Diagnostic :=
  .error .undefinedName ("undefined variable `" ++ x ++ "`")

def Diagnostic.Undefines (d : Diagnostic) (x : String) : Prop :=
  d.category = .undefinedName ∧ d.message = (undefinedVariable x).message

theorem Diagnostic.Undefines.unique {d : Diagnostic} {x y : String} (hx : d.Undefines x) (hy : d.Undefines y) : x = y := by
  have hmessage : (undefinedVariable x).message = (undefinedVariable y).message := hx.2.symm.trans hy.2
  exact (String.append_right_inj _).mp ((String.append_left_inj _).mp hmessage)

namespace Substitution

def applyEach (ss : List Substitution) (t : Ty) : Ty :=
  ss.foldl (fun t s => s.apply t) t

theorem applyEach_append (ss ss' : List Substitution) : applyEach (ss ++ ss') = applyEach ss' ∘ applyEach ss :=
  funext fun _ => List.foldl_append

end Substitution

namespace Env

def missing (env : Env) (names : List String) : Set String :=
  {x | x ∈ names ∧ env.lookup x = none}

variable {env : Env} {names names' : List String}

theorem missing_nil : env.missing [] = ∅ := by
  simp [missing]

theorem missing_append : env.missing (names ++ names') = env.missing names ∪ env.missing names' := by
  ext x
  simp [missing, or_and_right]

theorem missing_nest {bs : List (String × Scheme)} (hbs : ∀ x, x ∈ bs.map Prod.fst ↔ x ∈ names') :
    (env.nest bs).missing names = env.missing (Expr.without names' names) := by
  ext x
  have hlookup : (env.nest bs).lookup x = none ↔ x ∉ names' ∧ env.lookup x = none := by
    rw [lookup_nest, Option.or_eq_none_iff, OrderedMap.find?_eq_none_iff, OrderedMap.mem_keys_ofList, hbs]
  simp only [missing, Set.mem_ofPred_eq, Expr.mem_without, hlookup, and_assoc]

end Env

namespace Context

variable {U V : Set String} {c c₁ c' : Context}

/-- The later context has the surroundings of the earlier one, and tells that the given names are undefined. -/
structure Restores (U : Set String) (c c' : Context) : Prop where
  path : c'.path = c.path
  classes : ∃ ss ks, c'.classes = (c.classes.map (ClassConstraint.mapTy (Substitution.applyEach ss))).append ks
  errors : ∃ ds, c'.errors = c.errors ++ ds ∧ (∀ d ∈ ds, d.category = .undefinedName → ∃ x ∈ U, d.Undefines x) ∧
    ∀ x ∈ U, ∃ d ∈ ds, d.Undefines x

namespace Restores

theorem of_eq (hpath : c'.path = c.path) (hclasses : c'.classes = c.classes) (herrors : c'.errors = c.errors) : Restores ∅ c c' where
  path := hpath
  classes := ⟨[], [], hclasses.trans ((Scopes.append_nil _).trans (Scopes.map_id _)).symm⟩
  errors := ⟨[], herrors.trans (List.append_nil _).symm, List.forall_mem_nil _, nofun⟩

theorem refl (c : Context) : Restores ∅ c c :=
  .of_eq rfl rfl rfl

theorem trans (h : Restores U c c₁) (h' : Restores V c₁ c') : Restores (U ∪ V) c c' where
  path := h'.path.trans h.path
  classes := by
    obtain ⟨ss, ks, hclasses⟩ := h.classes
    obtain ⟨ss', ks', hclasses'⟩ := h'.classes
    refine ⟨ss ++ ss', ks.map (ClassConstraint.mapTy (Substitution.applyEach ss')) ++ ks', ?_⟩
    rw [hclasses', hclasses, Scopes.map_append, Scopes.map_map, Scopes.append_append, Substitution.applyEach_append]
    rfl
  errors := by
    obtain ⟨ds, hds, htold, hall⟩ := h.errors
    obtain ⟨ds', hds', htold', hall'⟩ := h'.errors
    refine ⟨ds ++ ds', by rw [hds', hds, List.append_assoc], fun d hd hcategory => ?_, fun x hx => ?_⟩
    · rcases List.mem_append.mp hd with hd | hd
      · obtain ⟨x, hx, hundefines⟩ := htold d hd hcategory
        exact ⟨x, .inl hx, hundefines⟩
      · obtain ⟨x, hx, hundefines⟩ := htold' d hd hcategory
        exact ⟨x, .inr hx, hundefines⟩
    · rcases hx with hx | hx
      · obtain ⟨d, hd, hundefines⟩ := hall x hx
        exact ⟨d, List.mem_append_left _ hd, hundefines⟩
      · obtain ⟨d, hd, hundefines⟩ := hall' x hx
        exact ⟨d, List.mem_append_right _ hd, hundefines⟩

theorem append (hpath : c'.path = c.path) {ks : List ClassConstraint} (hclasses : c'.classes = c.classes.append ks)
    (herrors : c'.errors = c.errors) : Restores ∅ c c' where
  path := hpath
  classes := ⟨[], ks, hclasses.trans (congrArg (Scopes.append · ks) (Scopes.map_id _).symm)⟩
  errors := (of_eq hpath rfl herrors : Restores ∅ c { c' with classes := c.classes }).errors

theorem mapped (hpath : c'.path = c.path) {s : Substitution} (hclasses : c'.classes = c.classes.map (ClassConstraint.mapTy s.apply))
    (herrors : ∃ ds, c'.errors = c.errors ++ ds ∧ ∀ d ∈ ds, d.category ≠ .undefinedName) : Restores ∅ c c' where
  path := hpath
  classes := ⟨[s], [], hclasses.trans (Scopes.append_nil _).symm⟩
  errors := herrors.imp fun _ h => ⟨h.1, fun d hd hcategory => absurd hcategory (h.2 d hd), nofun⟩

theorem told (hpath : c'.path = c.path) (hclasses : c'.classes = c.classes)
    (herrors : ∃ ds, c'.errors = c.errors ++ ds ∧ ∀ d ∈ ds, d.category ≠ .undefinedName) : Restores ∅ c c' where
  path := hpath
  classes := (of_eq hpath hclasses rfl : Restores ∅ c { c' with unifier := c.unifier }).classes
  errors := herrors.imp fun _ h => ⟨h.1, fun d hd hcategory => absurd hcategory (h.2 d hd), nofun⟩

theorem takeScope (h : Restores U c.pushClassScope c₁) : Restores U c { c₁ with classes := c₁.classes.takeScope.2 } where
  path := h.path
  classes := by
    obtain ⟨ss, ks, hclasses⟩ := h.classes
    refine ⟨ss, [], ?_⟩
    have hpushed : c₁.classes = ((c.classes.map (ClassConstraint.mapTy (Substitution.applyEach ss))).pushScope).append ks := hclasses
    rw [hpushed, Scopes.append_nil]
    rfl
  errors := h.errors

end Restores

theorem category_errors_foldl (c : Context) (qs : List Equation) :
    ∃ ds, (qs.foldl solveEquation c).errors = c.errors ++ ds ∧ ∀ d ∈ ds, d.category ≠ .undefinedName := by
  induction qs generalizing c with
  | nil => exact ⟨[], (List.append_nil _).symm, List.forall_mem_nil _⟩
  | cons q qs ih =>
      have hsolved : ∃ ds, (c.solveEquation q).errors = c.errors ++ ds ∧ ∀ d ∈ ds, d.category ≠ .undefinedName := by
        have herrors := c.unifier.run_errors q.goal
        rw [solveEquation_eq]
        rcases hrun : Unifier.run q.goal c.unifier with ⟨e | _, u⟩
        · rw [hrun] at herrors
          exact ⟨_, congrArg (· ++ _) herrors, List.forall_mem_singleton.mpr (e.category_diagnostic_ne _ _ _)⟩
        · rw [hrun] at herrors
          exact ⟨[], herrors.trans (List.append_nil _).symm, List.forall_mem_nil _⟩
      obtain ⟨ds, hds, hcategory⟩ := hsolved
      obtain ⟨ds', hds', hcategory'⟩ := ih (c.solveEquation q)
      exact ⟨ds ++ ds', by rw [List.foldl_cons, hds', hds, List.append_assoc], List.forall_mem_append.mpr ⟨hcategory, hcategory'⟩⟩

theorem category_errors_flush (c : Context) : ∃ ds, c.flush.errors = c.errors ++ ds ∧ ∀ d ∈ ds, d.category ≠ .undefinedName := by
  rw [flush_eq]
  exact category_errors_foldl { c with equations := .empty } c.equations.toList

theorem restores_flush (c : Context) : Restores ∅ c c.flush :=
  .told c.path_flush classes_flush c.category_errors_flush

theorem restores_solve (c : Context) : Restores ∅ c c.solve :=
  .mapped c.path_flush (congrArg (Scopes.map _) classes_flush) c.category_errors_flush

theorem restores_applyDefaults (defaults : Substitution) (c : Context) : Restores ∅ c (c.applyDefaults defaults) := by
  rw [applyDefaults_eq]
  split
  · exact .refl c
  · have herrors : (c.unifier.bindDefaults defaults).errors = c.errors ++ [] :=
      (Unifier.errors_bindDefaults _ _).trans (List.append_nil _).symm
    exact .mapped rfl rfl ⟨[], herrors, List.forall_mem_nil _⟩

theorem restores_report (node : NodeId) {d : Diagnostic} (hd : d.category ≠ .undefinedName) (c : Context) :
    Restores ∅ c (c.report node d) := by
  obtain ⟨d', hd', hcategory, -⟩ := c.errors_report node d
  exact .told rfl rfl ⟨[d'], hd', List.forall_mem_singleton.mpr (hcategory ▸ hd)⟩

theorem restores_undefined (node : NodeId) (x : String) (c : Context) : Restores {x} c (c.report node (undefinedVariable x)) where
  path := rfl
  classes := (Restores.of_eq rfl rfl rfl : Restores ∅ c { c with unifier := c.unifier }).classes
  errors := by
    obtain ⟨d, hd, hundefines⟩ := c.errors_report node (undefinedVariable x)
    refine ⟨[d], hd, List.forall_mem_singleton.mpr fun _ => ⟨x, rfl, hundefines⟩, fun y hy => ?_⟩
    rw [Set.mem_singleton_iff.mp hy]
    exact ⟨d, List.mem_singleton_self d, hundefines⟩

theorem restores_deferClasses (ks : List ClassConstraint) (c : Context) : Restores ∅ c (c.deferClasses ks) :=
  .append rfl rfl rfl

theorem Plain.restores (h : Plain c c') : Restores ∅ c c' := by
  cases h with
  | report node hd => exact restores_report node hd c
  | flush => exact restores_flush c
  | literal => exact .append rfl rfl rfl
  | _ => exact .of_eq rfl rfl rfl

end Context

namespace InferM

open Context Relation

variable {α β : Type} {U V : Set String} {session : Session} {env : Env}

structure Restoring (U : Set String) (m : InferM α) : Prop where
  ensures : ∀ c, Ensures m c fun _ c' => Restores U c c'

theorem restoring_pure (a : α) : Restoring ∅ (pure a) :=
  ⟨Restores.refl⟩

theorem Restoring.bind {m : InferM α} {f : α → InferM β} (hm : Restoring U m) (hf : ∀ a, Restoring V (f a)) :
    Restoring (U ∪ V) (m >>= f) :=
  ⟨fun c => (hm.ensures c).trans ((hf _).ensures _)⟩

theorem Restoring.bind_of {m : InferM α} {f : α → InferM β} {P : α → Prop} (hm : Restoring U m) (hP : ∀ c, Ensures m c fun a _ => P a)
    (hf : ∀ a, P a → Restoring V (f a)) : Restoring (U ∪ V) (m >>= f) :=
  ⟨fun c => (hm.ensures c).trans ((hf _ (hP c)).ensures _)⟩

theorem Restoring.then {m : InferM α} {f : α → InferM β} (hm : Restoring U m) (hf : ∀ a, Restoring ∅ (f a)) : Restoring U (m >>= f) :=
  Set.union_empty U ▸ hm.bind hf

theorem Restoring.after {m : InferM α} {f : α → InferM β} (hm : Restoring ∅ m) (hf : ∀ a, Restoring U (f a)) : Restoring U (m >>= f) :=
  Set.empty_union U ▸ hm.bind hf

theorem restoring_modify {g : Context → Context} (h : ∀ c, Restores U c (g c)) : Restoring U (modify g) :=
  ⟨h⟩

theorem restoring_get {f : Context → InferM α} (h : ∀ c, Restoring U (f c)) : Restoring U (get >>= f) :=
  ⟨fun c => (h c).ensures c⟩

theorem restoring_ite {p : Prop} [Decidable p] {m m' : InferM α} (h : p → Restoring U m) (h' : ¬ p → Restoring U m') :
    Restoring U (if p then m else m') := by
  split
  next hp => exact h hp
  next hp => exact h' hp

theorem restoring_forM {f : α → InferM Unit} {as : List α} (h : ∀ a ∈ as, Restoring ∅ (f a)) : Restoring ∅ (as.forM f) := by
  induction as with
  | nil => exact restoring_pure ()
  | cons a as ih =>
      refine (h a List.mem_cons_self).after fun _ => ?_
      refine ih fun a' ha' => ?_
      exact h a' (List.mem_cons_of_mem a ha')

theorem Restoring.within {m : InferM α} (h : Restoring U m) (label : String) : Restoring U (within label m) := by
  refine ⟨fun c => ?_⟩
  have hinside := h.ensures (c.enter label)
  exact ⟨(congrArg SourcePath.pop hinside.path).trans (c.path.pop_push label), hinside.classes, hinside.errors⟩

theorem Idles.restoring {m : InferM α} (h : Idles m) : Restoring ∅ m := by
  refine ⟨fun c => ?_⟩
  have hsteps := h.steps c
  change Restores ∅ c (m.run c).2
  generalize (m.run c).2 = c' at hsteps
  induction hsteps with
  | refl => exact .refl c
  | tail _ hstep ih => exact Set.union_empty (∅ : Set String) ▸ ih.trans hstep.restores

theorem restoring_addClass (className : String) (t : Ty) (node : NodeId) (origin : Origin) :
    Restoring ∅ (addClass className t node origin) :=
  restoring_modify fun _ => .append rfl rfl rfl

theorem restoring_instantiate (scheme : Scheme) (node : NodeId) : Restoring ∅ (instantiate scheme node) := by
  refine restoring_ite (fun _ => restoring_pure _) fun _ => ?_
  refine (idles_freshTypeRenaming _).restoring.after fun _ => ?_
  refine (idles_freshRowRenaming _).restoring.after fun _ => ?_
  refine (restoring_forM fun p _ => restoring_addClass ..).after fun _ => ?_
  exact (idles_note ..).restoring.after fun _ => restoring_pure _

section Boundaries

theorem restoring_applyOutcome (node : NodeId) (monotype : Ty) {outcome : DefaultingOutcome}
    (h : ∀ d ∈ outcome.errors, d.category ≠ .undefinedName) : Restoring ∅ (applyOutcome node monotype outcome) := by
  have hdefaults : Restoring ∅ (applyDefaults outcome.subst) := ⟨restores_applyDefaults _⟩
  refine (restoring_modify fun c => (.of_eq rfl rfl rfl : Restores ∅ c (c.logAll outcome.events))).after fun _ => ?_
  refine (restoring_forM fun d hd => (idles_report node (h d hd)).restoring).after fun _ => ?_
  exact restoring_ite (fun _ => (idles_note ..).restoring.after fun _ => hdefaults) fun _ => hdefaults

theorem restoring_resolveGround (r : Registry) (rejected : List TypeVarId) (reported : List (String × String)) (ks : List ClassConstraint) :
    Restoring ∅ (resolveGround r rejected reported ks) := by
  induction ks generalizing reported with
  | nil => exact restoring_pure _
  | cons k ks ih =>
      rw [resolveGround]
      refine restoring_ite (fun _ => ih reported) fun _ => ?_
      refine restoring_ite (fun _ => (ih reported).after fun _ => restoring_pure _) fun _ => ?_
      split
      next e _ =>
        have hrecord (c : Context) : Restores ∅ c { c with resolved := c.resolved.record e } := .of_eq rfl rfl rfl
        refine (idles_modify fun c => .log c e.event).restoring.after fun _ => ?_
        refine (idles_note ..).restoring.after fun _ => ?_
        exact restoring_ite (fun _ => (restoring_modify hrecord).after fun _ => ih reported) fun _ => ih reported
      next d hmissing =>
        have hcategory : d.category ≠ .undefinedName := Registry.category_of_missing hmissing ▸ Category.noConfusion
        refine restoring_ite (fun _ => ih reported) fun _ => ?_
        exact (idles_report _ hcategory).restoring.after fun _ => ih _
      next v _ =>
        have hfails (c : Context) : Restores ∅ c (c.failInternal v) := .of_eq rfl rfl rfl
        exact (restoring_modify hfails).after fun _ => ih reported

variable {c₀ c : Context}

theorem closing_restores (h : Restores U c₀.pushClassScope c) (node : NodeId) (ts : List Ty) (level : BindingLevel) (generalizable : Bool) :
    Ensures (closing session env node ts level generalizable) c fun _ c' => Restores U c₀ c' := by
  have hlater {V : Set String} {c c₁ c' : Context} (h : Restores V c c₁) (h' : Restores ∅ c₁ c') : Restores V c c' :=
    Set.union_empty V ▸ h.trans h'
  refine ensures_solve (ensures_get ?_)
  refine .bind ((idles_closeResultEffects ..).restoring.ensures _) fun _ c₁ h₁ => ensures_get ?_
  refine .bind ((restoring_applyOutcome _ _ fun _ hd => Defaulting.category_errors hd ▸ Category.noConfusion).ensures _) fun _ c₂ h₂ => ?_
  have h := hlater (hlater (hlater h (restores_solve c)) h₁) h₂
  refine .bind (Q := fun _ c₃ => Restores U c₀ c₃) h.takeScope fun _ c₃ h₃ => ensures_get ?_
  exact .bind ((restoring_resolveGround ..).ensures c₃) fun _ c₄ h₄ => ensures_pure (hlater h₃ h₄)

theorem restoring_dispose (level : BindingLevel) (ks : List ClassConstraint) : Restoring ∅ (dispose level ks) := by
  cases level with
  | nested => exact restoring_modify (restores_deferClasses ks)
  | topLevel => exact (idles_reportUnsolved [] ks).restoring

theorem restoring_conclude (node : NodeId) (level : BindingLevel) (generalizable : Bool) (cl : Closing) :
    Restoring ∅ (conclude node level generalizable cl) := by
  cases generalizable with
  | true =>
      refine (idles_mapM (fun t => idles_schemeOf ..) _).restoring.after fun _ => ?_
      exact (restoring_dispose ..).after fun _ => restoring_pure _
  | false =>
      refine (restoring_pure _).after fun _ => ?_
      exact (restoring_dispose ..).after fun _ => restoring_pure _

theorem closeBoundary_restores (h : Restores U c₀.pushClassScope c) (node : NodeId) (ts : List Ty) (level : BindingLevel)
    (generalizable : Bool) : Ensures (closeBoundary session env node ts level generalizable) c fun _ c' => Restores U c₀ c' := by
  rw [closeBoundary_eq]
  exact (closing_restores h ..).bind fun cl c₁ h₁ => Set.union_empty U ▸ h₁.trans ((restoring_conclude node level generalizable cl).ensures c₁)

theorem restoring_binding (value : Expr) (level : BindingLevel) {infer : InferM TypedExpr} (hinfer : Restoring U infer) :
    Restoring U (binding session env value level infer) := by
  refine ⟨fun c => ?_⟩
  have h : Ensures (binding session env value level infer) c fun _ c' => Restores U c c' := by
    apply ensures_modify
    refine .bind (hinfer.ensures _) fun typed c₁ h₁ => ?_
    exact (closeBoundary_restores h₁ ..).bind fun _ _ h₂ => ensures_get h₂
  exact h

theorem restoring_recGroup (node : NodeId) (bindings : List Binding) (level : BindingLevel)
    {infer : Env → List Ty → InferM (List TypedExpr)}
    (hinfer : ∀ (bs : List (String × Scheme)) ts, bs.map Prod.fst = bindings.map Prod.fst → Restoring U (infer (env.nest bs) ts)) :
    Restoring U (recGroup session env node bindings level infer) := by
  refine ⟨fun c => ?_⟩
  have hfresh : Ensures (bindings.mapM fun _ => freshType) c.pushClassScope fun ts c₁ =>
      ts.length = bindings.length ∧ Restores ∅ c.pushClassScope c₁ :=
    .intro ⟨ensures_mapM_length .., (idles_mapM (fun _ => idles_freshType) bindings).restoring.ensures _⟩
  have h : Ensures (recGroup session env node bindings level infer) c fun _ c' => Restores U c c' := by
    apply ensures_modify
    refine hfresh.bind fun ts c₁ ⟨hlength, h₁⟩ => ?_
    have hnames : ((bindings.map Prod.fst).zip (ts.map Scheme.mono)).map Prod.fst = bindings.map Prod.fst :=
      List.map_fst_zip (by simp [hlength])
    refine .bind ((hinfer _ ts hnames).ensures c₁) fun values c₂ h₂ => ?_
    refine (closeBoundary_restores (Set.empty_union U ▸ h₁.trans h₂) ..).bind fun _ _ h₃ => ensures_get h₃
  exact h

end Boundaries

section Forms

variable {id : NodeId} {m m₁ m₂ m₃ : InferM TypedExpr} {U₁ U₂ U₃ : Set String}

theorem restoring_variableUse (name : String) : Restoring (env.missing [name]) (variableUse env id name) := by
  rw [variableUse]
  cases hlookup : env.lookup name with
  | some scheme =>
      have hnone : env.missing [name] = ∅ := by simp [Env.missing, Set.eq_empty_iff_forall_notMem, hlookup]
      rw [hnone]
      exact (restoring_instantiate ..).after fun _ => restoring_pure _
  | none =>
      have hone : env.missing [name] = {name} := by
        ext x
        simp only [Env.missing, Set.mem_ofPred_eq, List.mem_singleton, Set.mem_singleton_iff, and_iff_left_iff_imp]
        exact fun hx => hx ▸ hlookup
      rw [hone]
      refine (restoring_modify (restores_undefined id name)).then fun _ => ?_
      exact idles_freshType.restoring.after fun _ => restoring_pure _

theorem restoring_function {body : Expr} (lambda : Expr) (params : List String) {inferBody : Env → InferM TypedExpr}
    (hbody : ∀ env, Restoring (env.missing body.freeUses) (inferBody env)) :
    Restoring (env.missing (Expr.without params body.freeUses)) (function session env lambda params inferBody) := by
  refine (Restoring.within ?_ _).then fun _ => restoring_pure _
  refine (idles_checkCaptures _).restoring.after fun _ => ?_
  refine Set.empty_union (env.missing _) ▸ (idles_mapM (fun _ => idles_freshType) _).restoring.bind_of (ensures_mapM_length params) fun types hlength => ?_
  have hnames : ((params.zip types).map fun p => (p.1, Scheme.mono p.2)).map Prod.fst = params := by
    rw [List.map_map]
    exact List.map_fst_zip hlength.ge
  rw [← Env.missing_nest fun x => by rw [hnames]]
  refine (hbody _).then fun _ => ?_
  exact (idles_latentEffects ..).restoring.after fun _ => restoring_pure _

theorem restoring_application (func : Expr) {inferArgs : InferM (List TypedExpr)} (hfunc : Restoring U₁ m) (hargs : Restoring U₂ inferArgs) :
    Restoring (U₁ ∪ U₂) (application id func m inferArgs) := by
  refine (Restoring.within ?_ _).then fun _ => (idles_joinEffects ..).restoring.after fun _ => restoring_pure _
  refine hfunc.bind fun _ => ?_
  refine hargs.then fun _ => ?_
  refine idles_flush.restoring.after fun _ => ?_
  refine (idles_applied _).restoring.after fun _ => ?_
  refine (idles_callee ..).restoring.after fun _ => ?_
  exact idles_flush.restoring.after fun _ => restoring_pure _

theorem restoring_letIn {body : Expr} (name : String) (value : Expr) {inferBody : Env → InferM TypedExpr} (hvalue : Restoring U m)
    (hbody : ∀ env, Restoring (env.missing body.freeUses) (inferBody env)) :
    Restoring (U ∪ env.missing (Expr.without [name] body.freeUses)) (letIn session env id name value m inferBody) := by
  refine ((restoring_binding _ _ hvalue).within _).bind fun (scheme, value) => ?_
  have hnest : (env.nest [(name, scheme)]).missing body.freeUses = env.missing (Expr.without [name] body.freeUses) :=
    Env.missing_nest fun _ => Iff.rfl
  rw [← hnest]
  refine (hbody _).then fun _ => ?_
  exact (idles_joinEffects ..).restoring.after fun _ => restoring_pure _

theorem restoring_letRec {body : Expr} {bindings : List Binding} {inferValues : Env → List Ty → InferM (List TypedExpr)}
    {inferBody : Env → InferM TypedExpr} (hlength : ∀ env ts c, Ensures (inferValues env ts) c fun es _ => es.length = bindings.length)
    (hvalues : ∀ env ts, Restoring (env.missing (Expr.freeUsesFields bindings)) (inferValues env ts))
    (hbody : ∀ env, Restoring (env.missing body.freeUses) (inferBody env)) :
    Restoring (env.missing (Expr.without (bindings.map Prod.fst) (Expr.freeUsesFields bindings ++ body.freeUses)))
      (letRec session env id bindings inferValues inferBody) := by
  have hnest {bs : List (String × Scheme)} (names : List String) (hbs : bs.map Prod.fst = bindings.map Prod.fst) :
      (env.nest bs).missing names = env.missing (Expr.without (bindings.map Prod.fst) names) :=
    Env.missing_nest fun x => by rw [hbs]
  have hgroup : Restoring (env.missing (Expr.without (bindings.map Prod.fst) (Expr.freeUsesFields bindings)))
      (within (Decl.letRecLabel bindings) (recGroup session env id bindings .nested inferValues)) :=
    (restoring_recGroup id bindings .nested fun bs ts hbs => hnest _ hbs ▸ hvalues (env.nest bs) ts).within _
  have hnames (c : Context) : Ensures (within (Decl.letRecLabel bindings) (recGroup session env id bindings .nested inferValues)) c
      fun group _ => group.map TypedBinding.name = bindings.map Prod.fst := by
    apply ensures_modify
    refine (recGroup_names id bindings .nested hlength _).bind fun _ _ hnames => ?_
    exact ensures_modify (ensures_pure hnames)
  rw [Expr.without, List.filter_append, Env.missing_append]
  refine hgroup.bind_of hnames fun group hgroup => ?_
  have hnested : (group.map fun b => (b.name, b.scheme)).map Prod.fst = bindings.map Prod.fst := (List.map_map ..).trans hgroup
  change Restoring (env.missing (Expr.without (bindings.map Prod.fst) body.freeUses)) _
  rw [← hnest _ hnested]
  refine (hbody _).then fun _ => ?_
  exact (idles_joinEffects ..).restoring.after fun _ => restoring_pure _

theorem restoring_cond (h₁ : Restoring U₁ m₁) (h₂ : Restoring U₂ m₂) (h₃ : Restoring U₃ m₃) :
    Restoring (U₁ ∪ (U₂ ∪ U₃)) (cond id m₁ m₂ m₃) := by
  refine (Restoring.within ?_ _).then fun _ => (idles_joinEffects ..).restoring.after fun _ => restoring_pure _
  refine h₁.bind fun _ => ?_
  refine (idles_equate ..).restoring.after fun _ => ?_
  refine h₂.bind fun _ => ?_
  refine h₃.then fun _ => ?_
  exact (idles_equate ..).restoring.after fun _ => restoring_pure _

theorem restoring_operation (op : BinaryOp) (left right : TypedExpr) : Restoring ∅ (operation id op left right) := by
  have hdemand (operand : Ty) (className : String) : Restoring ∅ do
      addClass className operand id .operator
      return operand :=
    (restoring_addClass ..).after fun _ => restoring_pure _
  refine restoring_ite (fun _ => ?_) fun _ => ?_
  · refine (idles_equate ..).restoring.after fun _ => ?_
    exact (idles_equate ..).restoring.after fun _ => restoring_pure _
  refine (idles_equate ..).restoring.after fun _ => ?_
  refine idles_flush.restoring.after fun _ => ?_
  refine (idles_applied _).restoring.after fun operand => ?_
  refine restoring_ite (fun _ => restoring_ite (fun _ => ?_) fun _ => ?_) fun _ => ?_
  · exact (restoring_pure _).after (hdemand operand)
  · exact (idles_numericClass operand).restoring.after (hdemand operand)
  · exact (restoring_addClass ..).after fun _ => restoring_pure _

theorem restoring_binary (op : BinaryOp) (h₁ : Restoring U₁ m₁) (h₂ : Restoring U₂ m₂) : Restoring (U₁ ∪ U₂) (binary id op m₁ m₂) := by
  refine h₁.bind fun _ => ?_
  refine h₂.then fun _ => ?_
  refine (idles_joinEffects ..).restoring.after fun _ => ?_
  refine restoring_ite (fun _ => ?_) fun _ => ?_
  · exact (idles_concatenation ..).restoring.after fun _ => restoring_pure _
  · exact (restoring_operation ..).after fun _ => restoring_pure _

theorem restoring_unary (op : UnaryOp) (h : Restoring U m) : Restoring U (unary id op m) := by
  refine h.then fun _ => ?_
  cases op with
  | not => exact (idles_equate ..).restoring.after fun _ => restoring_pure _
  | neg =>
      refine Restoring.after ?_ fun _ => restoring_pure _
      refine idles_flush.restoring.after fun _ => ?_
      refine (idles_applied _).restoring.after fun _ => ?_
      refine (idles_numericClass _).restoring.after fun _ => ?_
      exact (restoring_addClass ..).after fun _ => restoring_pure _

theorem restoring_record {inferFields : InferM (List (String × TypedExpr))} (h : Restoring U inferFields) :
    Restoring U (record session id inferFields) := by
  refine h.then fun _ => ?_
  exact (idles_joinEffects ..).restoring.after fun _ => restoring_pure _

theorem restoring_field (h : Restoring U m) (name : String) : Restoring U (field id m name) := by
  refine h.then fun _ => ?_
  exact (idles_fieldType ..).restoring.after fun _ => restoring_pure _

theorem restoring_update (h : Restoring U₁ m) {inferFields : (String → TypedExpr → InferM Unit) → InferM (List (String × TypedExpr))}
    (hfields : ∀ after, (∀ name e, Restoring ∅ (after name e)) → Restoring U₂ (inferFields after)) :
    Restoring (U₁ ∪ U₂) (update id m inferFields) := by
  refine h.bind fun _ => ?_
  refine idles_flush.restoring.after fun _ => ?_
  refine (idles_applied _).restoring.after fun t => ?_
  have hreplaced := hfields _ fun name e => (idles_replaceField t (knownFields? t) name e).restoring
  refine restoring_ite (fun _ => (idles_report _ Category.noConfusion).restoring.after fun _ => ?_) fun _ => ?_
  · refine hreplaced.then fun _ => ?_
    exact (idles_joinEffects ..).restoring.after fun _ => restoring_pure _
  · refine hreplaced.then fun _ => ?_
    exact (idles_joinEffects ..).restoring.after fun _ => restoring_pure _

theorem restoring_list {inferElems : (TypedExpr → InferM Unit) → InferM (List TypedExpr)}
    (h : ∀ after, (∀ e, Restoring ∅ (after e)) → Restoring U (inferElems after)) : Restoring U (list id inferElems) := by
  refine idles_freshType.restoring.after fun _ => ?_
  refine (h _ fun _ => (idles_equate ..).restoring).then fun _ => ?_
  exact (idles_joinEffects ..).restoring.after fun _ => restoring_pure _

theorem restoring_tuple {inferElems : InferM (List TypedExpr)} (h : Restoring U inferElems) : Restoring U (tuple id inferElems) := by
  refine h.then fun _ => ?_
  exact (idles_joinEffects ..).restoring.after fun _ => restoring_pure _

theorem restoring_arm {body : Expr} (index : Nat) (scrutinee result : Ty) (p : Pattern) {inferBody : Env → InferM TypedExpr}
    (hbody : ∀ env, Restoring (env.missing body.freeUses) (inferBody env)) :
    Restoring (env.missing (Expr.without p.boundNames body.freeUses)) (arm session env index scrutinee result p inferBody) := by
  refine Restoring.within (Set.empty_union (env.missing _) ▸
    (idles_inferPattern [] p).restoring.bind_of (ensures_inferPattern session p []) fun x hadds => ?_) _
  have hnames : ∀ y, y ∈ (x.2.mapValues Scheme.mono).map Prod.fst ↔ y ∈ p.boundNames := by
    intro y
    change y ∈ (x.2.mapValues Scheme.mono).keys ↔ _
    rw [OrderedMap.keys_mapValues, hadds y]
    exact or_iff_right List.not_mem_nil
  rw [← Env.missing_nest hnames]
  refine (idles_equate ..).restoring.after fun _ => ?_
  refine (hbody _).then fun _ => ?_
  exact (idles_equate ..).restoring.after fun _ => restoring_pure _

theorem restoring_caseOf (h : Restoring U₁ m) {inferArms : Ty → Ty → InferM (List (TypedPattern × TypedExpr))}
    (harms : ∀ scrutinee result, Restoring U₂ (inferArms scrutinee result)) : Restoring (U₁ ∪ U₂) (caseOf id m inferArms) := by
  refine (Restoring.within ?_ _).then fun _ => (idles_joinEffects ..).restoring.after fun _ => restoring_pure _
  refine h.bind fun _ => ?_
  refine idles_freshType.restoring.after fun _ => ?_
  exact (harms _ _).then fun _ => restoring_pure _

theorem Restoring.noted (h : Restoring U m) (e : Expr) : Restoring U (noted e m) := by
  refine h.then fun typed => ?_
  refine restoring_get fun c => ?_
  refine restoring_ite (fun _ => ?_) fun _ => restoring_pure _
  exact (idles_note ..).restoring.after fun _ => restoring_pure _

end Forms

section Expressions

variable (session : Session)

mutual

theorem restoring_inferExpr (env : Env) (e : Expr) : Restoring (env.missing e.freeUses) (inferExpr session env e) := by
  cases e with
  | lit id l =>
      rw [Expr.freeUses, Env.missing_nil]
      exact Restoring.noted ((idles_literalType ..).restoring.after fun _ => restoring_pure _) _
  | var id name => exact (restoring_variableUse name).noted _
  | lambda id params body => exact (restoring_function _ params fun env => restoring_inferExpr env body).noted _
  | app id func args =>
      rw [Expr.freeUses, Env.missing_append]
      exact (restoring_application func (restoring_inferExpr env func)
        (restoring_inferExprs env (fun _ => restoring_pure ()) args)).noted _
  | letIn id name value body =>
      rw [Expr.freeUses, Env.missing_append]
      exact (restoring_letIn name value (restoring_inferExpr env value) fun env => restoring_inferExpr env body).noted _
  | letRec id bindings body =>
      exact (restoring_letRec (fun env ts c => inferValues_length session env ts bindings c)
        (fun env ts => restoring_inferValues env ts bindings) fun env => restoring_inferExpr env body).noted _
  | cond id c t e =>
      rw [Expr.freeUses, List.append_assoc, Env.missing_append, Env.missing_append]
      exact (restoring_cond (restoring_inferExpr env c) (restoring_inferExpr env t) (restoring_inferExpr env e)).noted _
  | binary id op l r =>
      rw [Expr.freeUses, Env.missing_append]
      exact (restoring_binary op (restoring_inferExpr env l) (restoring_inferExpr env r)).noted _
  | unary id op e => exact (restoring_unary op (restoring_inferExpr env e)).noted _
  | record id fs =>
      exact (restoring_record (restoring_inferFields env (fun _ _ _ => (idles_duplicateField ..).restoring) [] fs)).noted _
  | field id e name => exact (restoring_field (restoring_inferExpr env e) name).noted _
  | update id e fs =>
      rw [Expr.freeUses, Env.missing_append]
      exact (restoring_update (restoring_inferExpr env e) fun _ h => restoring_inferFields env (fun _ => h) [] fs).noted _
  | list id es => exact (restoring_list fun _ h => restoring_inferExprs env h es).noted _
  | tuple id es => exact (restoring_tuple (restoring_inferExprs env (fun _ => restoring_pure ()) es)).noted _
  | caseOf id e arms =>
      rw [Expr.freeUses, Env.missing_append]
      exact (restoring_caseOf (restoring_inferExpr env e) fun scrutinee result =>
        restoring_inferArms env scrutinee result 0 arms).noted _
termination_by structural e

theorem restoring_inferExprs (env : Env) {after : TypedExpr → InferM Unit} (hafter : ∀ e, Restoring ∅ (after e)) (es : List Expr) :
    Restoring (env.missing (Expr.freeUsesAll es)) (inferExprs session env after es) := by
  cases es with
  | nil =>
      rw [Expr.freeUsesAll, Env.missing_nil]
      exact restoring_pure _
  | cons e es =>
      rw [Expr.freeUsesAll, Env.missing_append]
      refine (restoring_inferExpr env e).bind fun _ => ?_
      refine (hafter _).after fun _ => ?_
      exact (restoring_inferExprs env hafter es).then fun _ => restoring_pure _
termination_by structural es

theorem restoring_inferFields (env : Env) {after : List String → String → TypedExpr → InferM Unit}
    (hafter : ∀ earlier name e, Restoring ∅ (after earlier name e)) (earlier : List String) (fs : List (String × Expr)) :
    Restoring (env.missing (Expr.freeUsesFields fs)) (inferFields session env after earlier fs) := by
  cases fs with
  | nil =>
      rw [Expr.freeUsesFields, Env.missing_nil]
      exact restoring_pure _
  | cons f fs =>
      rw [Expr.freeUsesFields, Env.missing_append]
      refine ((restoring_inferExpr env f.2).within _).bind fun _ => ?_
      refine (hafter ..).after fun _ => ?_
      exact (restoring_inferFields env hafter _ fs).then fun _ => restoring_pure _
termination_by structural fs

theorem restoring_inferValues (env : Env) (placeholders : List Ty) (bs : List (String × Expr)) :
    Restoring (env.missing (Expr.freeUsesFields bs)) (inferValues session env placeholders bs) := by
  cases bs with
  | nil =>
      rw [Expr.freeUsesFields, Env.missing_nil]
      exact restoring_pure _
  | cons b bs =>
      rw [Expr.freeUsesFields, Env.missing_append]
      refine (restoring_inferExpr env b.2).bind fun _ => ?_
      refine (idles_equate ..).restoring.after fun _ => ?_
      exact (restoring_inferValues env _ bs).then fun _ => restoring_pure _
termination_by structural bs

theorem restoring_inferArms (env : Env) (scrutinee result : Ty) (index : Nat) (arms : List (Pattern × Expr)) :
    Restoring (env.missing (Expr.freeUsesArms arms)) (inferArms session env scrutinee result index arms) := by
  cases arms with
  | nil =>
      rw [Expr.freeUsesArms, Env.missing_nil]
      exact restoring_pure _
  | cons a arms =>
      rw [Expr.freeUsesArms, Env.missing_append]
      refine (restoring_arm index scrutinee result a.1 fun env => restoring_inferExpr env a.2).bind fun _ => ?_
      exact (restoring_inferArms env scrutinee result _ arms).then fun _ => restoring_pure _
termination_by structural arms

end

end Expressions

theorem inferExpr_undefined (session : Session) (env : Env) (e : Expr) (c : Context) :
    let out := (inferExpr session env e).run c
    ∃ ds, out.2.errors = c.errors ++ ds ∧
      (∀ d ∈ ds, d.category = .undefinedName → ∃ x, d.message = "undefined variable `" ++ x ++ "`") ∧
      ∀ x, (∃ d ∈ ds, d.category = .undefinedName ∧ d.message = "undefined variable `" ++ x ++ "`") ↔
        x ∈ e.freeNames ∧ env.lookup x = none := by
  intro out
  have hrestores : Restores (env.missing e.freeUses) c out.2 := (restoring_inferExpr session env e).ensures c
  obtain ⟨ds, hds, htold, hall⟩ := hrestores.errors
  refine ⟨ds, hds, fun d hd hcategory => ?_, fun x => ?_⟩
  · obtain ⟨x, -, hundefines⟩ := htold d hd hcategory
    exact ⟨x, hundefines.2⟩
  rw [Expr.mem_freeNames]
  constructor
  · rintro ⟨d, hd, hundefines⟩
    obtain ⟨y, hy, hundefines'⟩ := htold d hd hundefines.1
    obtain rfl : y = x := hundefines'.unique hundefines
    exact hy
  · exact hall x

theorem stacked_inferExpr_restores (session : Session) (env : Env) (e : Expr) (c : Context) :
    let out := (inferExpr session env e).run c
    (Stacked.inferExpr session e).run (env, c) = (out.1, env, out.2) ∧
      out.2.path = c.path ∧
      out.2.classes.nested.length = c.classes.nested.length ∧
      (∃ ss ks, out.2.classes = (c.classes.map (ClassConstraint.mapTy (Substitution.applyEach ss))).append ks) ∧
      c.errors <+: out.2.errors := by
  intro out
  have hrestores : Restores (env.missing e.freeUses) c out.2 := (restoring_inferExpr session env e).ensures c
  obtain ⟨ss, ks, hclasses⟩ := hrestores.classes
  obtain ⟨ds, hds, -⟩ := hrestores.errors
  refine ⟨(Stacked.balances_inferExpr session env e).run c, hrestores.path, ?_, ⟨ss, ks, hclasses⟩, ⟨ds, hds.symm⟩⟩
  rw [hclasses, Scopes.length_nested_append]
  exact List.length_map _

end InferM

end RowTyping
