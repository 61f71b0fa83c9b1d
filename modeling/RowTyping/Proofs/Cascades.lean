import RowTyping.Proofs.Consistency
import RowTyping.Proofs.Inference.Fresh
import RowTyping.Proofs.Unmentioned

namespace RowTyping

def Scheme.unknown (v : TypeVarId) : Scheme :=
  ⟨[.star v], [], [], .ofVar v⟩

theorem Scheme.closed_unknown (v : TypeVarId) : (unknown v).Closed := fun s => by
  have hfree : (s.outside (unknown v)).lookupType v = none := (OrderedMap.find?_erase ..).trans (if_pos rfl)
  have hty : (s.outside (unknown v)).apply (.ofVar v) = .ofVar v := by
    refine Substitution.apply_of_free fun w hw hbinds => ?_
    obtain rfl := Ty.mem_vars_var.mp hw
    obtain ⟨t, ht⟩ := hbinds
    cases hfree.symm.trans ht
  have happly : s.applyScheme (unknown v) = unknown v := by
    rw [Substitution.applyScheme]
    exact congrArg (Scheme.mk [.star v] [] []) hty
  rw [happly]
  refine ⟨List.eq_nil_iff_forall_not_mem.mpr fun w hw => ?_, rfl⟩
  obtain ⟨hw, hne⟩ := OrderedSet.mem_diff.mp hw
  rw [OrderedSet.mem_ofList, List.mem_append, Ty.mem_typeVars_iff] at hw
  rcases hw with hw | hw
  · exact hne (List.mem_singleton.mpr (Var.type.inj (Ty.mem_vars_var.mp hw)))
  · cases hw

theorem Scheme.closed_mono {t : Ty} (h : t.isGround = true) : (mono t).Closed := fun s => by
  have happly : s.applyScheme (mono t) = mono t := congrArg mono (Substitution.apply_of_free fun v hv => absurd hv (Ty.isGround_iff.mp h v))
  obtain ⟨htypes, hrows⟩ := Bool.and_eq_true_iff.mp h
  rw [List.isEmpty_iff] at htypes hrows
  rw [happly, freeTypeVars, freeRowVars, mono, htypes, hrows]
  exact ⟨rfl, rfl⟩

namespace Context

variable {r : Registry} {c c' : Context} {ks : List ClassConstraint}

theorem errors_flush_append (c : Context) : c.errors <+: c.flush.errors := by
  obtain ⟨ds, hds, -⟩ := c.errors_append_flush
  exact ⟨ds, hds.symm⟩

theorem Idle.errors (h : Idle c c') : c.errors <+: c'.errors := by
  cases h with
  | report node d => exact ⟨[_], rfl⟩
  | flush => exact c.errors_flush_append
  | _ => exact List.prefix_rfl

theorem Quiet.errors (h : Quiet c c') : c.errors <+: c'.errors := by
  cases h with
  | idle h => exact h.errors
  | solve => exact c.errors_flush_append
  | applyDefaults defaults =>
      rw [Context.applyDefaults_eq]
      split
      · exact List.prefix_rfl
      · have herrors := c.unifier.errors_bindDefaults defaults
        exact ⟨[], (List.append_nil _).trans herrors.symm⟩
  | _ => exact List.prefix_rfl

theorem errors_settle (c : Context) (r : Registry) (k : ClassConstraint) (told : Bool) : c.errors <+: (c.settle r k told).errors := by
  rw [settle]
  split
  · dsimp only
    split <;> exact List.prefix_rfl
  · split
    · exact List.prefix_rfl
    · exact ⟨[_], rfl⟩
  · exact List.prefix_rfl

theorem Run.errors (h : Run r c ks c') : c.errors <+: c'.errors := by
  induction h with
  | refl => exact List.prefix_rfl
  | quiet _ hquiet ih => exact ih.trans hquiet.errors
  | settle _ k told ih => exact ih.trans (errors_settle ..)

theorem path_flush (c : Context) : c.flush.path = c.path := by
  rw [flush_eq]
  refine foldl_solveEquation (fun c q => ?_) _ _
  rw [solveEquation_eq]
  rcases Unifier.run q.goal c.unifier with ⟨_ | _, u⟩ <;> rfl

theorem unifier_solveEquation (h : c'.unifier = c.unifier) (q : Equation) : (c'.solveEquation q).unifier = (c.solveEquation q).unifier := by
  rw [solveEquation_eq, solveEquation_eq, h]
  rcases Unifier.run q.goal c.unifier with ⟨_ | _, u⟩ <;> rfl

theorem unifier_foldl_congr (h : c'.unifier = c.unifier) (qs : List Equation) :
    (qs.foldl solveEquation c').unifier = (qs.foldl solveEquation c).unifier := by
  induction qs generalizing c c' with
  | nil => exact h
  | cons q qs ih => exact ih (unifier_solveEquation h q)

theorem errors_flush_note (c : Context) (node : NodeId) (t : Ty) (rule : InferRule) : (c.note node t rule).flush.errors = c.flush.errors := by
  have h : ({ c.note node t rule with equations := .empty } : Context).unifier = ({ c with equations := .empty } : Context).unifier := rfl
  rw [flush_eq, flush_eq]
  exact congrArg Unifier.errors (unifier_foldl_congr h c.equations.toList)

end Context

namespace InferM

variable {session : Session} {env : Env} {s : State} {c : Context} {x : String} {v : TypeVarId}

theorem Stepwise.errors {α : Type} {r : Registry} {m : InferM α} (h : Stepwise r m) (c : Context) :
    Ensures m c fun _ c' => c.errors <+: c'.errors := by
  obtain ⟨ks, hrun, -⟩ := h.steps c
  exact hrun.errors

theorem ensures_use (session : Session) (hx : env.lookup x = some (.unknown v)) (c : Context) (n : NodeId) : Ensures (inferExpr session env (.var n x)) c
    fun e c' => e = .var (pureNode n (.ofVar c.unifier.supply.nextType)) x ∧ c.Draws c' := by
  have happly (w : TypeVarId) : Substitution.apply ⟨OrderedMap.ofList [(v, .ofVar w)], OrderedMap.ofList []⟩ (.ofVar v) = .ofVar w := by
    change ((OrderedMap.find? [(v, Ty.ofVar w)] v).map id).getD (.ofVar v) = .ofVar w
    rw [OrderedMap.find?_cons, if_pos rfl]
    rfl
  have huse : Ensures (variableUse env n x) c fun e c' =>
      e = .var (pureNode n (.ofVar c.unifier.supply.nextType)) x ∧ c.Draws c' := by
    rw [variableUse, hx]
    exact ⟨congrArg (fun t => TypedExpr.var (pureNode n t) x) (happly _), ⟨rfl, rfl, rfl, rfl, rfl, rfl, rfl, rfl⟩⟩
  refine Ensures.noted huse fun e c' ⟨he, hdraws⟩ => ⟨he, ?_⟩
  exact ⟨hdraws.subst, hdraws.supply, hdraws.errors, hdraws.equations, hdraws.classes, hdraws.path, hdraws.resolved, hdraws.internal⟩

theorem ensures_fieldType (h : s.Admits session env) (hc : s.Untold c) (id : NodeId) (name : String) :
    Ensures (fieldType id (.ofVar s.supply.nextType) name) c fun _ c' => c'.flush.errors = c.flush.errors := by
  have hflush : s.Untold c.flush := (hc.run h uniform_flush).2
  have hrecord : Uniform Ty.renumber fun _ : Variant session.registry => freshType >>= fun t => freshRow >>= fun rest =>
      pure (.record (.openRecord [(name, t)] rest)) := by
    refine uniform_freshType.bind fun t => ?_
    refine uniform_freshRow.bind fun rest => ?_
    exact uniform_pure_of_eq (.record (.openRecord [(name, t)] rest)) fun _ => rfl
  obtain ⟨ht, hrest⟩ := hflush.run h hrecord
  refine ensures_flush (.bind (Q := fun t c' => t = Ty.ofVar s.supply.nextType ∧ c' = c.flush) ⟨hflush.apply_unknown, rfl⟩ ?_)
  rintro t c' ⟨rfl, rfl⟩
  exact hrest.errors_flush c.equations_flush id (.recordField name) ht rfl

theorem ensures_callee (h : s.Admits session env) (hc : s.Untold c) (hequations : c.equations = .empty) (id funcId : NodeId)
    {args : List TypedExpr} (hargs : ∃ args' : List TypedExpr, args = args'.map (TypedExpr.renumber s.skip)) :
    Ensures (callee id funcId args (.ofVar s.supply.nextType)) c fun _ c' => c'.flush.errors = c.errors := by
  obtain ⟨args, rfl⟩ := hargs
  have hfn : Uniform Ty.renumber fun v : Variant session.registry => freshType >>= fun t => freshRow >>= fun latent =>
      pure (.fn ((args.map (TypedExpr.renumber v.numbers)).map TypedExpr.ty) (Effects.opened [] latent) t) :=
    uniform_freshType.bind fun t => uniform_freshRow.bind fun latent =>
      uniform_pure_of_eq (.fn (args.map TypedExpr.ty) (Effects.opened [] latent) t) fun v => by
        rw [Ty.renumber_fn, Effects.renumber_opened, ← TypedExpr.types_renumber]
  obtain ⟨ht, hrest⟩ := hc.run h hfn
  exact hrest.errors_flush hequations funcId .application ht rfl

variable (h : s.Admits session env) (hx : env.lookup x = some (.unknown v))

include h hx

theorem ensures_use_bind {β : Type} {n : NodeId} {f : TypedExpr → InferM β} {Q : β → Context → Prop}
    (hf : ∀ c, c = ((inferExpr session env (.var n x)).run s.context).2 → s.Untold c → c.path = s.context.path →
      Ensures (f (.var (pureNode n (.ofVar s.supply.nextType)) x)) c Q) :
    Ensures (inferExpr session env (.var n x) >>= f) s.context Q := by
  obtain ⟨he, hdraws⟩ := ensures_use session hx s.context n
  have hrest := hf _ rfl (h.untold hdraws) hdraws.path
  rw [← he] at hrest
  exact hrest

theorem ensures_field (id n : NodeId) (name : String) : Ensures (inferExpr session env (.field id (.var n x) name)) s.context
    fun _ c' => c'.flush.errors = ((inferExpr session env (.var n x)).run s.context).2.flush.errors := by
  refine Ensures.noted (Q := fun _ c' => c'.flush.errors = ((inferExpr session env (.var n x)).run s.context).2.flush.errors) ?_
    fun e c' hc' => (c'.errors_flush_note ..).trans hc'
  refine ensures_use_bind h hx fun c hc huntold _ => ?_
  rw [← hc]
  exact (ensures_fieldType h huntold id name).bind fun _ _ herrors => ensures_pure herrors

theorem ensures_update (id n : NodeId) (fs : List (String × Expr)) : Ensures (inferExpr session env (.update id (.var n x) fs)) s.context
    fun _ c' => ((inferExpr session env (.var n x)).run s.context).2.flush.errors ++
      [(unknownShape (.ofVar s.supply.nextType)).located s.context.path (some id)] <+: c'.errors := by
  refine Ensures.noted (Q := fun _ c' => _ <+: c'.errors) ?_ fun _ _ herrors => herrors
  refine ensures_use_bind h hx fun c hc huntold hpath => ?_
  rw [← hc]
  refine .bind (Q := fun _ c' => c' = c.flush) rfl fun _ c' hc' => ?_
  subst hc'
  have hunknown : s.Untold c.flush := (huntold.run h uniform_flush).2
  replace hpath := c.path_flush.trans hpath
  generalize c.flush = c at hunknown hpath ⊢
  refine Ensures.bind (Q := fun t c' => t = Ty.ofVar s.supply.nextType ∧ c' = c) ⟨hunknown.apply_unknown, rfl⟩ fun t c' ⟨ht, hc'⟩ => ?_
  subst ht hc'
  refine ensures_ite (fun _ => ?_) fun hne => absurd rfl hne
  have hreported : c'.errors ++ [(unknownShape (.ofVar s.supply.nextType)).located s.context.path (some id)] =
      (c'.report id (unknownShape (.ofVar s.supply.nextType))).errors := hpath ▸ rfl
  rw [hreported]
  refine ensures_modify (Stepwise.errors (r := session.registry) ?_ _)
  refine (stepwise_inferFields env (fun _ _ _ => (idles_replaceField ..).stepwise) [] fs).bind fun _ => ?_
  exact (idles_joinEffects ..).stepwise.bind fun _ => stepwise_pure _

omit h hx in
theorem admits_enter (h : s.Admits session env) (label : String) :
    State.Admits ⟨s.context.enter label, s.layout⟩ session env := by
  have hleads : s.Leads ⟨s.context.enter label, s.layout⟩ := .alike ⟨rfl, rfl, rfl, rfl⟩
  exact ⟨h.ready.alike ⟨rfl, rfl, rfl, rfl⟩, hleads.ownsEnv h.owned, hleads.supports h.supports, h.quantified, h.ascending, h.internal⟩

def passing (session : Session) (env : Env) (n : NodeId) (x : String) (args : List Expr) : InferM Unit := do
  let _ ← inferExpr session env (.var n x)
  let _ ← inferExprs session env (fun _ => pure ()) args
  flush

theorem ensures_called (id n : NodeId) (args : List Expr) :
    Ensures (called id (.var n x) (inferExpr session env (.var n x)) (inferExprs session env (fun _ => pure ()) args)) s.context
      fun _ c' => c'.equations = .empty ∧ c'.errors = ((passing session env n x args).run (s.context.enter ("call " ++ x))).2.errors := by
  replace h := admits_enter h ("call " ++ x)
  refine ensures_modify (.bind (Q := fun _ c' => c'.equations = .empty ∧ c'.errors = _) ?_ fun _ c' hc' => ensures_modify (ensures_pure hc'))
  refine ensures_use_bind h hx fun c hc huntold _ => ?_
  have hpassing : (passing session env n x args).run (s.context.enter ("call " ++ x)) =
      (inferExprs session env (fun _ => pure ()) args >>= fun _ => flush).run c := hc ▸ rfl
  have huniform : Uniform (fun π => List.map (TypedExpr.renumber π)) fun v : Variant session.registry =>
      inferExprs (v.session session) (env.renumber v.numbers) (fun _ => pure ()) args :=
    uniform_inferExprs env (fun _ => uniform_pure (σ := plainly) ()) args
  have hargs := huntold.run h huniform
  have hsession : h.variant.session session = session := rfl
  have henv : env.renumber h.variant.numbers = env := h.renumber_env
  rw [hsession, henv] at hargs
  rw [hpassing]
  refine Ensures.bind (Q := fun es c' => (∃ es' : List TypedExpr, es = es'.map (TypedExpr.renumber (State.skip _))) ∧
    State.Untold _ c' ∧ c' = ((inferExprs session env (fun _ => pure ()) args).run c).2) ⟨hargs.1, hargs.2, rfl⟩
    fun es c₁ ⟨hes, huntold₁, hc₁⟩ => ?_
  have hflush : ((inferExprs session env (fun _ => pure ()) args >>= fun _ => flush).run c).2 = c₁.flush := hc₁ ▸ rfl
  rw [hflush]
  have hunknown := (huntold₁.run h uniform_flush).2
  refine .bind (Q := fun _ c' => c' = c₁.flush) rfl fun _ c₂ hc₂ => ?_
  subst hc₂
  refine Ensures.bind (Q := fun t c' => t = Ty.ofVar s.supply.nextType ∧ c' = c₁.flush) ⟨hunknown.apply_unknown, rfl⟩
    fun t c' ⟨ht, hc'⟩ => ?_
  subst ht hc'
  refine (ensures_callee h hunknown c₁.equations_flush id n hes).bind fun _ c₃ herrors => ?_
  exact .bind (Q := fun _ c' => c' = c₃.flush) rfl fun _ c' hc' => hc' ▸ ensures_pure ⟨c₃.equations_flush, herrors⟩

theorem ensures_call (id n : NodeId) (args : List Expr) : Ensures (inferExpr session env (.app id (.var n x) args)) s.context
    fun _ c' => c'.errors = ((passing session env n x args).run (s.context.enter ("call " ++ x))).2.errors := by
  refine Ensures.noted (Q := fun _ c' => c'.errors = _) ?_ fun _ _ herrors => herrors
  rw [application_eq]
  have hfunc : Infers session .anywhere env (inferExpr session env (.var n x)) := infers_inferExpr session _ env fun _ _ _ => trivial
  have hargs : InfersAll session .anywhere env (inferExprs session env (fun _ => pure ()) args) :=
    (infers_inferExprs session args env fun _ _ _ _ _ => trivial).all
  have hready := (keeps_called h.ready h.owned h.supports id (.var n x) hfunc hargs).and_ensures (ensures_called h hx id n args)
  obtain ⟨l, -, hready, -, hequations, herrors⟩ := hready
  refine .bind (Q := fun _ c' => c' = _) rfl fun _ c' hc' => ?_
  subst hc'
  refine (joinEffects_errors hequations hready.unifier.chainless id _).bind fun _ _ h => ensures_pure (h.trans herrors)

end InferM

theorem Env.lookup_bind (env : Env) (x : String) (k : Scheme) : (env.bind x k).lookup x = some k := by
  obtain ⟨globals, locals⟩ := env
  cases locals with
  | nil => exact (OrderedMap.find?_insert ..).trans (if_pos rfl)
  | cons inner outer =>
      have hinner : (inner.insert x k).find? x = some k := (OrderedMap.find?_insert ..).trans (if_pos rfl)
      rw [bind, lookup, lookupLocal, List.findSome?_cons, hinner]
      rfl

structure Bears (session : Session) (env : Env) (x : String) (s : State) : Prop where
  use : ∀ n, ((inferExpr session env (.var n x)).run s.context).2.errors = s.context.errors
  field : ∀ id n name, ((inferExpr session env (.field id (.var n x) name)).run s.context).2.flush.errors =
    ((inferExpr session env (.var n x)).run s.context).2.flush.errors
  call : ∀ id n args, ((inferExpr session env (.app id (.var n x) args)).run s.context).2.errors =
    ((InferM.passing session env n x args).run (s.context.enter ("call " ++ x))).2.errors
  update : ∀ id n fs, ((inferExpr session env (.var n x)).run s.context).2.flush.errors ++
    [(InferM.unknownShape (.ofVar s.supply.nextType)).located s.context.path (some id)] <+:
      ((inferExpr session env (.update id (.var n x) fs)).run s.context).2.errors

namespace Checker

open InferM

theorem checkDecls_unknown (session : Session) (env : Env) (x : String) (v : TypeVarId) {t : Ty} (ht : t.isGround = true) :
    (∀ ds, (∀ d ∈ ds, x ∉ Decl.freeUses d) →
      checkDecls session (env.bind x (.unknown v)) ds = checkDecls session (env.bind x (.mono t)) ds) ∧
    ∀ s : State, s.Admits session (env.bind x (.unknown v)) → Bears session (env.bind x (.unknown v)) x s := by
  refine ⟨fun ds hds => ?_, fun s h => ?_⟩
  · exact checkDecls_agree session (Scheme.closed_mono ht) (Scheme.closed_unknown v) hds ((Env.Rebinds.refl env).bind (.inr ⟨rfl, rfl⟩))
  · have hx := env.lookup_bind x (.unknown v)
    exact ⟨fun n => (ensures_use session hx s.context n).2.errors, ensures_field h hx, ensures_call h hx, ensures_update h hx⟩

theorem admits_start {checker : Checker} {supply : Supply} (hglobals : ∀ scheme ∈ checker.globals.schemes, scheme.Within supply)
    (hdefaults : ∀ t, checker.registry.IsDefault t → t.isGround = true ∧ t.Ordered) (hbelow : checker.NumberedBelow supply)
    (signatures : EffectSignatures) (x : String) {v : TypeVarId} (hv : supply.Covers (.type v)) :
    (State.start checker supply none).Admits (checker.session signatures) (checker.globals.bind x (.unknown v)) := by
  obtain ⟨hsubst, hsupply, -⟩ := State.context_start checker supply none
  have hvar : (State.start checker supply none).Owns (.ofVar v) := State.owns_var (hsupply.symm ▸ hv)
  refine ⟨State.ready_start nofun, fun scheme hscheme => ?_, supports_start hdefaults signatures, fun scheme hscheme w hw => ?_, ?_, ?_⟩
  · rcases State.mem_schemes_bind hscheme with rfl | hscheme
    · exact ⟨hvar, List.forall_mem_nil _, List.forall_mem_nil _⟩
    · exact ownsEnv_start hglobals scheme hscheme
  · rw [hsupply]
    rcases State.mem_schemes_bind hscheme with rfl | hscheme
    · exact List.mem_singleton.mp hw ▸ hv
    · refine hbelow.globals scheme hscheme _ (List.mem_append_right _ (List.mem_append_left _ (List.mem_map_of_mem hw)))
  · rw [hsubst]
    exact ⟨.nil, .nil⟩
  · exact checker.internal_context supply

theorem checkDecls_unknown_prelude :
    let g := Decl.bind 3 "g" (.app 2 (.var 0 "show") [.lit 1 (.int 1)])
    ∃ checker counters events, Checker.build .default .prelude ⟨0, 0⟩ = (.ok (checker, counters), events) ∧ "f" ∉ g.freeUses ∧
      checkDecls (checker.session []) (checker.globals.bind "f" (.unknown 1024)) [g] =
        checkDecls (checker.session []) (checker.globals.bind "f" (.mono .int)) [g] ∧
      Bears (checker.session []) (checker.globals.bind "f" (.unknown 1024)) "f" (State.start checker ⟨1025, 1024⟩ none) := by
  intro g
  obtain ⟨checker, counters, events, hbuild, -, -, hdefaults⟩ := exists_prelude
  have hbelow : checker.NumberedBelow ⟨1025, 1024⟩ := numberedBelow_of_first hbuild (by decide)
  obtain ⟨-, rfl⟩ := Checker.build_ok hbuild
  have hglobals : ∀ scheme ∈ checker.globals.schemes, scheme.Within ⟨1025, 1024⟩ := globals_within hbuild (by decide) (by decide)
  have hground : Ty.int.isGround = true := by decide
  have hadmits := admits_start hglobals hdefaults hbelow [] "f" (show Supply.Covers ⟨1025, 1024⟩ (.type 1024) by decide)
  have h := checkDecls_unknown (checker.session []) checker.globals "f" 1024 hground
  exact ⟨checker, _, events, hbuild, by decide, h.1 [g] (by decide), h.2 _ hadmits⟩

theorem checkDecls_cascades :
    let update := Decl.bind 4 "ok" (.update 3 (.var 1 "bad") [("a", .lit 2 (.int 1))])
    let concat := Decl.bind 6 "ok" (.binary 5 .concat (.binary 3 .concat (.var 1 "bad") (.var 2 "bad")) (.lit 4 (.string "s")))
    ∃ checker counters events, Checker.build .default .prelude ⟨0, 0⟩ = (.ok (checker, counters), events) ∧
      ∀ x ∈ [(update, Ty.record (.closedRecord [("a", .int)]), "record update needs a record of known shape, got a"),
          (concat, Ty.string, "operands of `++` have incompatible types: List(a) and String")],
        x.2.1.isGround = true ∧
        ((checkDecl (checker.session []) (checker.globals.bind "bad" (.mono x.2.1)) x.1).run
          (checker.context ⟨1025, 1024⟩)).2.errors = [] ∧
        ((checkDecl (checker.session []) (checker.globals.bind "bad" (.unknown 1024)) x.1).run
          (checker.context ⟨1025, 1024⟩)).2.errors.map Diagnostic.message = [x.2.2] := by
  intro update concat
  obtain ⟨checker, counters, events, hbuild, hchecker, -⟩ := exists_prelude
  refine ⟨checker, counters, events, hbuild, ?_⟩
  rw [hchecker]
  decide +kernel

end Checker

end RowTyping
