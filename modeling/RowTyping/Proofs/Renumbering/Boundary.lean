import RowTyping.Proofs.Inference.Resolving
import RowTyping.Proofs.Renumbering.Actions
import RowTyping.Proofs.Renumbering.Classes
import RowTyping.Proofs.Renumbering.Trees

namespace RowTyping

section Sketches

variable {π : Renumbering} {k : Sketch} {c : Context}

namespace Sketch

theorem Renders.map_apply (h : k.Renders π c) (hπ : π.Ascends) (ts : List Ty) :
    (ts.map (Ty.renumber π)).map c.apply = (ts.map k.context.apply).map (Ty.renumber π) :=
  map_map_comm fun t _ => h.apply hπ t

theorem Renders.innermost (h : k.Renders π c) :
    c.classes.innermost = k.context.classes.innermost.map (ClassConstraint.renumber π) := by
  rw [h.classes, Scopes.innermost_map]

theorem Renders.freeTypeVars (h : k.Renders π c) (hπ : π.Ascends) (env : Env) :
    (env.renumber π).freeTypeVars c.subst = (env.freeTypeVars k.context.subst).map π.type := by
  rw [Context.subst, h.unifier.subst, env.freeTypeVars_renumber _ hπ]
  rfl

theorem Renders.freeRowVars (h : k.Renders π c) (hπ : π.Ascends) (env : Env) :
    (env.renumber π).freeRowVars c.subst = (env.freeRowVars k.context.subst).map π.row := by
  rw [Context.subst, h.unifier.subst, env.freeRowVars_renumber _ hπ]
  rfl

theorem Renders.applyExpr (h : k.Renders π c) (hπ : π.Ascends) (e : TypedExpr) :
    c.subst.applyExpr (e.renumber π) = (k.context.subst.applyExpr e).renumber π := by
  rw [Context.subst, h.unifier.subst, Substitution.applyExpr_renumber _ hπ]
  rfl

theorem mapClasses_renumber {f f' : Ty → Ty} (hf : ∀ t : Ty, f' (t.renumber π) = (f t).renumber π) (s : Scopes ClassConstraint) :
    (s.map (ClassConstraint.renumber π)).map (ClassConstraint.mapTy f') =
      (s.map (ClassConstraint.mapTy f)).map (ClassConstraint.renumber π) := by
  have hconstraint (k : ClassConstraint) : (k.renumber π).mapTy f' = (k.mapTy f).renumber π :=
    congrArg (ClassConstraint.mk k.className · k.path k.node k.origin) (hf k.ty)
  simp only [Scopes.map, List.map_map, Function.comp_def, hconstraint]

def applied (k : Sketch) : Sketch :=
  ⟨k.context.mapClasses k.context.apply, k.reports⟩

theorem Renders.applied (h : k.Renders π c) (hπ : π.Ascends) : k.applied.Renders π (c.mapClasses c.apply) := by
  refine ⟨h.unifier, h.errors, h.equations, ?_, h.path, h.resolved, h.internal⟩
  have hclasses := mapClasses_renumber (h.apply hπ) k.context.classes
  rwa [← h.classes] at hclasses

theorem Renders.solve (h : k.Renders π c) (hπ : π.Ascends) : k.flush.applied.Renders π c.solve :=
  (h.flush hπ).applied hπ

def applyDefaults (k : Sketch) (defaults : Substitution) : Sketch :=
  ⟨k.context.applyDefaults defaults, k.reports⟩

theorem bindDefault_renumber (hπ : π.Ascends) {u u' : Unifier} (h : u.Renders π u') (v : TypeVarId) (t : Ty) :
    (u.bindDefault v t).Renders π (u'.bindDefault (π.type v) (t.renumber π)) := by
  have hlookup : u'.subst.lookupType (π.type v) = (u.subst.lookupType v).map (Ty.renumber π) := by
    rw [h.subst, u.subst.lookupType_renumber hπ]
  rw [Unifier.bindDefault, Unifier.bindDefault, hlookup, Option.isNone_map]
  split
  · refine ⟨?_, h.supply⟩
    rw [h.subst, u.subst.bindType_renumber hπ]
  · exact h

theorem bindDefaults_renumber (hπ : π.Ascends) {u u' : Unifier} (h : u.Renders π u') (defaults : Substitution) :
    (u.bindDefaults defaults).Renders π (u'.bindDefaults (defaults.renumber π)) := by
  have hfoldl (es : List (TypeVarId × Ty)) {u u' : Unifier} (h : u.Renders π u') :
      Unifier.Renders π (es.foldl (fun u e => u.bindDefault e.1 e.2) u)
        ((es.map fun e => (π.type e.1, e.2.renumber π)).foldl (fun u e => u.bindDefault e.1 e.2) u') := by
    induction es generalizing u u' with
    | nil => exact h
    | cons e es ih => exact ih (bindDefault_renumber hπ h e.1 e.2)
  exact hfoldl defaults.types h

theorem Renders.applyDefaults (h : k.Renders π c) (hπ : π.Ascends) (defaults : Substitution) :
    (k.applyDefaults defaults).Renders π (c.applyDefaults (defaults.renumber π)) := by
  rw [Sketch.applyDefaults, Context.applyDefaults_eq, Context.applyDefaults_eq, Substitution.isEmpty_renumber]
  split
  · exact h
  · have herrors := (c.unifier.errors_bindDefaults (defaults.renumber π)).trans h.errors
    have hbound : Renders π ⟨{ k.context with unifier := k.context.unifier.bindDefaults defaults }, k.reports⟩
        { c with unifier := c.unifier.bindDefaults (defaults.renumber π) } :=
      ⟨bindDefaults_renumber hπ h.unifier defaults, herrors, h.equations, h.classes, h.path, h.resolved, h.internal⟩
    refine ⟨hbound.unifier, herrors, h.equations, (hbound.applied hπ).classes, h.path, ?_, h.internal⟩
    have happly := k.context.resolved.apply_renumber hπ (k.context.unifier.bindDefaults defaults).subst
    rw [← h.resolved, ← hbound.unifier.subst] at happly
    exact happly

end Sketch

theorem openTails_renumber (hπ : π.Ascends) (ts : List Ty) (envRowVars : List RowVarId) :
    ((ts.map (Ty.renumber π)).filterMap Ty.latentTail).filter (fun r =>
        !(envRowVars.map π.row).contains r && (Ty.tuple (ts.map (Ty.renumber π))).countRowVar r == 1) =
      ((ts.filterMap Ty.latentTail).filter fun r => !envRowVars.contains r && (Ty.tuple ts).countRowVar r == 1).map π.row := by
  have htails : (ts.map (Ty.renumber π)).filterMap Ty.latentTail = (ts.filterMap Ty.latentTail).map π.row := by
    rw [List.filterMap_map, List.map_filterMap]
    exact List.filterMap_congr fun t _ => t.latentTail_renumber
  rw [htails, List.filter_map, ← Ty.renumber_tuple]
  simp only [Function.comp_def, contains_map_of_injective hπ.row.injective, Ty.countRowVar_renumber _ hπ]

end Sketches

namespace InferM

variable {r : Registry}

theorem uniform_closeResultEffects (node : NodeId) (ts : List Ty) (envRowVars : List RowVarId) :
    Uniform plainly fun v : Variant r =>
      closeResultEffects node (ts.map (Ty.renumber v.numbers)) (envRowVars.map v.numbers.row) := by
  refine uniform_get (F := ?F) (fun k v c h => ?_) fun k => ?_
  case refine_1 =>
    simp only [h.map_apply v.ascends, openTails_renumber v.ascends, List.isEmpty_map]
    rfl
  refine uniform_ite (fun _ => uniform_pure (σ := plainly) ()) fun _ => ?_
  have h := uniform_equateTails (r := r) node (.closedEffects [])
  simp only [Row.renumber_closedEffects] at h
  exact (h _).bind fun _ => uniform_flush

theorem uniform_solve : Uniform plainly fun _ : Variant r => solve :=
  fun k => ⟨(), k.flush.applied, fun v _ h => ⟨rfl, h.solve v.ascends⟩⟩

theorem uniform_applyOutcome (node : NodeId) (monotype : Variant r → Ty) {outcome : DefaultingOutcome}
    {outcomes : Variant r → DefaultingOutcome} (h : ∀ v, Defaulting.Renders v.numbers outcome (outcomes v)) :
    Uniform plainly fun v => applyOutcome node (monotype v) (outcomes v) := by
  refine (uniform_logAll _).bind fun _ => ?_
  simp only [fun v => (h v).errors, fun v => (h v).subst, Substitution.isEmpty_renumber]
  refine (uniform_forM fun d _ => uniform_report node d).bind fun _ => ?_
  have hdefaults : Uniform plainly fun v : Variant r => applyDefaults (outcome.subst.renumber v.numbers) :=
    fun k => ⟨(), k.applyDefaults outcome.subst, fun v _ hk => ⟨rfl, hk.applyDefaults v.ascends outcome.subst⟩⟩
  refine uniform_ite (fun _ => ?_) fun _ => hdefaults
  exact (uniform_note node _ _).bind fun _ => hdefaults

theorem uniform_recordResolution {e : Resolution} (he : e.ty.isGround = true) :
    Uniform plainly fun _ : Variant r => modify fun c => { c with resolved := c.resolved.record e } := by
  refine uniform_modify fun k => ⟨⟨{ k.context with resolved := k.context.resolved.record e }, k.reports⟩, fun v c h => ?_⟩
  refine ⟨h.unifier, h.errors, h.equations, h.classes, h.path, ?_, h.internal⟩
  change c.resolved.record e = _
  rw [h.resolved, ResolutionTable.record_renumber _ v.ascends he]

-- A ground constraint has no numbers, so that all variants look up one and the same.
theorem uniform_resolveGround (rejected : List TypeVarId) (reported : List (String × String)) (ks : List ClassConstraint) :
    Uniform (fun π => List.map (ClassConstraint.renumber π)) fun v : Variant r =>
      resolveGround r (rejected.map v.numbers.type) reported (ks.map (ClassConstraint.renumber v.numbers)) := by
  induction ks generalizing reported with
  | nil => exact uniform_pure (σ := fun π => List.map (ClassConstraint.renumber π)) []
  | cons k ks ih =>
      have hrejected (v : Variant r) : (k.renumber v.numbers).ty.typeVars.any (rejected.map v.numbers.type).contains =
          k.ty.typeVars.any rejected.contains := by
        rw [ClassConstraint.renumber, k.ty.typeVars_renumber v.ascends, List.any_map]
        simp only [Function.comp_def, contains_map_of_injective v.ascends.type.injective]
      have hisGround (v : Variant r) : (k.renumber v.numbers).isGround = k.isGround := k.ty.isGround_renumber v.ascends
      simp only [List.map_cons, resolveGround, hrejected, hisGround]
      refine uniform_ite (fun _ => ih reported) fun _ => uniform_ite (fun _ => ?_) fun hground => ?_
      · exact (ih reported).bind fun ks => uniform_pure (σ := fun π => List.map (ClassConstraint.renumber π)) (k :: ks)
      replace hground : k.isGround = true := by simpa using hground
      have hfixed (v : Variant r) : k.renumber v.numbers = k := by
        rw [ClassConstraint.renumber, Ty.renumber_of_ground hground]
      simp only [hfixed]
      rcases r.resolve_of_ground hground with ⟨e, hresolve⟩ | ⟨d, hresolve⟩
      · simp only [hresolve]
        refine (uniform_log _).bind fun _ => ?_
        refine (uniform_note _ _ _).bind fun _ => ?_
        have he : e.ty.isGround = true := (Registry.resolve_ok hresolve).ground
        exact uniform_ite (fun _ => (uniform_recordResolution he).bind fun _ => ih reported) fun _ => ih reported
      · simp only [hresolve]
        refine uniform_ite (fun _ => ih reported) fun _ => ?_
        refine (uniform_report k.node d).bind fun _ => ?_
        exact ih ((k.className, k.ty.text) :: reported)

theorem uniform_reportUnsolved (seen : List (String × String)) (ks : List ClassConstraint) :
    Uniform plainly fun v : Variant r => reportUnsolved seen (ks.map (ClassConstraint.renumber v.numbers)) := by
  induction ks generalizing seen with
  | nil => exact uniform_pure (σ := plainly) ()
  | cons k ks ih =>
      simp only [List.map_cons, reportUnsolved, ClassConstraint.renumber, fun v : Variant r => k.ty.display_renumber v.ascends]
      refine uniform_ite (fun _ => ih seen) fun _ => ?_
      refine (uniform_report _ _).bind fun _ => ?_
      exact ih ((k.className, k.ty.display) :: seen)

theorem uniform_schemeOf (node : NodeId) (envTypeVars : List TypeVarId) (envRowVars : List RowVarId)
    (pending : List ClassConstraint) (t : Ty) :
    Uniform Scheme.renumber fun v : Variant r => schemeOf node (envTypeVars.map v.numbers.type) (envRowVars.map v.numbers.row)
      (pending.map (ClassConstraint.renumber v.numbers)) (t.renumber v.numbers) := by
  have hscheme (v : Variant r) := t.generalize_renumber v.ascends (attached (OrderedSet.diff t.typeVars envTypeVars) pending)
    envTypeVars envRowVars
  simp only [schemeOf, fun v : Variant r => t.quantified_renumber v.ascends, fun v : Variant r => attached_renumber v.ascends, hscheme]
  refine (uniform_log _).bind fun _ => ?_
  exact (uniform_note _ _ _).bind fun _ => uniform_pure _

section Closing

def Closing.renumber (π : Renumbering) (cl : Closing) : Closing :=
  ⟨cl.envTypeVars.map π.type, cl.envRowVars.map π.row, cl.types.map (Ty.renumber π), cl.rejected.map π.type,
    cl.constraints.map (ClassConstraint.renumber π), cl.pending.map (ClassConstraint.renumber π)⟩

variable {session : Session}

theorem uniform_closing (env : Env) (node : NodeId) (ts : List Ty) (level : BindingLevel) (generalizable : Bool) :
    Uniform Closing.renumber fun v : Variant session.registry => closing (v.session session) (env.renumber v.numbers) node
      (ts.map (Ty.renumber v.numbers)) level generalizable := by
  refine uniform_solve.bind fun _ => uniform_get (F := ?F) (fun k v c h => ?_) fun k => ?_
  case refine_1 =>
    simp only [h.innermost, h.freeTypeVars v.ascends, h.freeRowVars v.ascends]
    rfl
  refine (uniform_closeResultEffects node ts _).bind fun _ => uniform_get (F := ?G) (fun k' v c h => ?_) fun k' => ?_
  case refine_1 =>
    simp only [h.map_apply v.ascends, ← Ty.renumber_tuple]
    rfl
  have houtcome (v : Variant session.registry) := Defaulting.renders_defaultConstraints v.ascends v.defaults
    (Ty.tuple (ts.map k'.context.apply)) k.context.classes.innermost (env.freeTypeVars k.context.subst)
    (if level = .topLevel ∧ !generalizable then .topLevel else .boundary)
  refine (uniform_applyOutcome node _ houtcome).bind fun _ => ?_
  refine uniform_takeClassScope.bind fun constraints => ?_
  refine uniform_get (F := ?H) (fun k v c h => ?_) fun k => ?_
  case refine_1 =>
    simp only [h.map_apply v.ascends, Variant.registry_session, (houtcome v).rejected]
    rfl
  exact (uniform_resolveGround _ [] constraints).bind fun pending => uniform_pure (Closing.mk _ _ _ _ constraints pending)

theorem uniform_dispose (level : BindingLevel) (ks : List ClassConstraint) :
    Uniform plainly fun v : Variant r => dispose level (ks.map (ClassConstraint.renumber v.numbers)) := by
  cases level with
  | nested => exact uniform_deferClasses ks
  | topLevel => exact uniform_reportUnsolved [] ks

theorem leftovers_renumber {π : Renumbering} (hπ : π.Ascends) (ts : List Ty) (envTypeVars : List TypeVarId) (generalizable : Bool)
    (pending : List ClassConstraint) :
    (pending.map (ClassConstraint.renumber π)).filter (fun k => !(generalizable && (ts.map (Ty.renumber π)).any fun t =>
        attaches (OrderedSet.diff t.typeVars (envTypeVars.map π.type)) k)) =
      (pending.filter fun k => !(generalizable && ts.any fun t => attaches (OrderedSet.diff t.typeVars envTypeVars) k)).map
        (ClassConstraint.renumber π) := by
  rw [List.filter_map]
  simp only [List.any_map, Function.comp_def, Ty.quantified_renumber hπ, attaches_renumber hπ]

theorem uniform_conclude (node : NodeId) (level : BindingLevel) (generalizable : Bool) (cl : Closing) :
    Uniform (fun π => List.map (Scheme.renumber π)) fun v : Variant r => conclude node level generalizable (cl.renumber v.numbers) := by
  have hmono (v : Variant r) : (cl.types.map (Ty.renumber v.numbers)).map Scheme.mono = (cl.types.map Scheme.mono).map (Scheme.renumber v.numbers) :=
    map_map_comm fun t _ => rfl
  simp only [conclude, Closing.renumber, fun v : Variant r => leftovers_renumber v.ascends, hmono]
  have hrest (ks : List ClassConstraint) (schemes : List Scheme) : Uniform (fun π => List.map (Scheme.renumber π)) fun v : Variant r => do
      dispose level (ks.map (ClassConstraint.renumber v.numbers))
      return schemes.map (Scheme.renumber v.numbers) :=
    (uniform_dispose level ks).bind fun _ => uniform_pure schemes
  refine uniform_ite (fun _ => ?_) fun _ => hrest _ _
  simp only [List.mapM_map]
  exact (uniform_mapM fun t _ => uniform_schemeOf node _ _ _ t).bind (hrest _)

theorem uniform_closeBoundary (env : Env) (node : NodeId) (ts : List Ty) (level : BindingLevel) (generalizable : Bool) :
    Uniform (fun π => List.map (Scheme.renumber π)) fun v : Variant session.registry => closeBoundary (v.session session)
      (env.renumber v.numbers) node (ts.map (Ty.renumber v.numbers)) level generalizable := by
  simp only [closeBoundary_eq]
  exact (uniform_closing env node ts level generalizable).bind fun cl => uniform_conclude node level generalizable cl

end Closing

section Bindings

variable {session : Session} {env : Env}

theorem uniform_appliedExpr (e : TypedExpr) : Uniform TypedExpr.renumber fun v : Variant r => do
    return (← get).subst.applyExpr (e.renumber v.numbers) :=
  uniform_gets fun k => ⟨k.context.subst.applyExpr e, fun v _ h => h.applyExpr v.ascends e⟩

theorem uniform_binding (value : Expr) (level : BindingLevel) {infer : Variant session.registry → InferM TypedExpr}
    (hinfer : Uniform TypedExpr.renumber infer) :
    Uniform (fun π => Prod.map (Scheme.renumber π) (TypedExpr.renumber π)) fun v : Variant session.registry =>
      binding (v.session session) (env.renumber v.numbers) value level (infer v) := by
  simp only [binding]
  refine uniform_pushClassScope.bind fun _ => ?_
  refine hinfer.bind fun e => ?_
  simp only [TypedExpr.ty_renumber]
  have hclose : Uniform (fun π => List.map (Scheme.renumber π)) fun v : Variant session.registry =>
      closeBoundary (v.session session) (env.renumber v.numbers) value.id [e.ty.renumber v.numbers] level value.isValue :=
    uniform_closeBoundary env value.id [e.ty] level value.isValue
  refine hclose.bind fun schemes => ?_
  refine uniform_gets fun k => ?_
  refine ⟨(schemes.headD (.mono (k.context.subst.applyExpr e).ty), k.context.subst.applyExpr e), fun v c h => ?_⟩
  rw [h.applyExpr v.ascends, TypedExpr.ty_renumber]
  cases schemes <;> rfl

theorem uniform_topLevel (e : Expr) {infer : Variant session.registry → InferM TypedExpr} (hinfer : Uniform TypedExpr.renumber infer) :
    Uniform TypedExpr.renumber fun v : Variant session.registry =>
      topLevel (v.session session) (env.renumber v.numbers) e (infer v) := by
  simp only [topLevel]
  refine uniform_pushClassScope.bind fun _ => ?_
  refine hinfer.bind fun typed => ?_
  simp only [TypedExpr.ty_renumber]
  have hclose : Uniform (fun π => List.map (Scheme.renumber π)) fun v : Variant session.registry =>
      closeBoundary (v.session session) (env.renumber v.numbers) e.id [typed.ty.renumber v.numbers] .topLevel false :=
    uniform_closeBoundary env e.id [typed.ty] .topLevel false
  exact hclose.bind fun _ => uniform_appliedExpr typed

theorem uniform_recGroup (node : NodeId) (bindings : List Binding) (level : BindingLevel)
    {infer : Variant session.registry → Env → List Ty → InferM (List TypedExpr)}
    (hinfer : ∀ (env : Env) (ts : List Ty), Uniform (fun π => List.map (TypedExpr.renumber π)) fun v =>
      infer v (env.renumber v.numbers) (ts.map (Ty.renumber v.numbers))) :
    Uniform (fun π => List.map (TypedBinding.renumber π)) fun v : Variant session.registry =>
      recGroup (v.session session) (env.renumber v.numbers) node bindings level (infer v) := by
  simp only [recGroup]
  refine uniform_pushClassScope.bind fun _ => ?_
  refine (uniform_mapM fun _ _ => uniform_freshType).bind fun placeholders => ?_
  have hinner (v : Variant session.registry) :
      (env.renumber v.numbers).nest ((bindings.map Prod.fst).zip ((placeholders.map (Ty.renumber v.numbers)).map Scheme.mono)) =
        (env.nest ((bindings.map Prod.fst).zip (placeholders.map Scheme.mono))).renumber v.numbers := by
    rw [List.zip_map_right, List.zip_map_right, List.zip_map_right]
    exact env.nest_mono_renumber ((bindings.map Prod.fst).zip placeholders)
  simp only [hinner]
  refine (hinfer _ placeholders).bind fun values => ?_
  refine (uniform_closeBoundary env node placeholders level _).bind fun schemes => ?_
  refine uniform_gets fun k => ⟨((bindings.map Prod.fst).zip (values.zip schemes)).map fun b =>
    ⟨b.1, b.2.2, k.context.subst.applyExpr b.2.1⟩, fun v c h => ?_⟩
  rw [List.zip_map, List.zip_map_right, List.map_map, List.map_map]
  refine List.map_congr_left fun b _ => ?_
  exact congrArg (TypedBinding.mk b.1 (b.2.2.renumber v.numbers)) (h.applyExpr v.ascends b.2.1)

end Bindings

end InferM

end RowTyping
