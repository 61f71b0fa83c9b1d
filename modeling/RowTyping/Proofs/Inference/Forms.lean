import RowTyping.Infer.Form
import RowTyping.Proofs.Inference.Patterns

namespace RowTyping

namespace State

variable {s s' : State} {session : Session} {sites : Sites} {e : TypedExpr}

theorem Bound.predicates {group : List TypedBinding} (h : s.Bound session sites group) :
    ∀ b ∈ group, ∀ p ∈ b.scheme.predicates, p.ty.Within s.supply :=
  fun b hb => (h.schemes b hb).predicates

structure Flows (s : State) (session : Session) (sites : Sites) (e : TypedExpr) : Prop where
  owned : s.OwnsEffects e.effects
  gathers : s.Entails fun A => e.Gathers (Ty.value A) (Effects.value A)
  signed : s.Entails fun A => e.Signed session.signatures (Effects.value A)
  met : e.IsFunction → ∃ env lambda c, sites env lambda ∧ s.Meets session e env lambda c

theorem flows_of_join {rows : List Effects} (h : s.Joins e.effects rows) (hrows : ∀ c ∈ e.children, c.effects ∈ rows)
    (hcallee : e.callee? = none) (hfn : ¬ e.IsFunction) : s.Flows session sites e :=
  ⟨h.owned, fun A hA => TypedExpr.gathers_of_children hcallee fun c hc => h.includes A hA _ (hrows c hc),
    fun _ _ => TypedExpr.signed_of_not_function hfn, fun h => absurd h hfn⟩

theorem joins_singleton {x : Effects} (h : s.OwnsEffects x) : s.Joins x [x] :=
  ⟨h, fun _ _ => List.forall_mem_singleton.mpr (.refl _)⟩

structure Annotated (s : State) (session : Session) (e : TypedExpr) : Prop where
  types : ∀ t ∈ e.annotations, s.Owns t
  patterns : ∀ p ∈ e.patterns, s.PatternTyped session p

theorem Annotated.of_nil (htypes : e.annotations = []) (hpatterns : e.patterns = []) : s.Annotated session e :=
  ⟨htypes ▸ List.forall_mem_nil _, hpatterns ▸ List.forall_mem_nil _⟩

theorem inferred_of_group (hbound : s.Bound session sites e.group)
    (hchildren : ∀ c ∈ e.children, s.Inferred session sites c ∨ ∃ b ∈ e.group, b.value = c) (hannotated : s.Annotated session e)
    (hrule : s.Rowed → s.Entails fun A => e.Rule (Ty.value A))
    (hdispatch : ∀ d ∈ e.dispatch?, s.context.errors = [] → ∃ className ∈ d.1, s.Pending e.id className d.2)
    (hty : s.Owns e.ty) (hflows : s.Flows session sites e) : s.Inferred session sites e := by
  refine inferred_node (fun c hc => ?_) ⟨fun t ht => ?_, ?_, hbound.predicates, fun _ => hannotated.patterns, hrule,
    hflows.gathers, hflows.signed, hflows.met⟩ hdispatch hty hflows.owned
  · rcases hchildren c hc with h | ⟨b, hb, rfl⟩
    · exact .inl h.toTyped
    · exact .inr ⟨b, hb, rfl, hbound.typed b hb⟩
  · rcases List.mem_append.mp ht with ht | ht
    · rcases List.mem_cons.mp ht with rfl | ht
      · exact hty.within
      · obtain ⟨c, hc, rfl⟩ := List.mem_map.mp ht
        rcases hchildren c hc with h | ⟨b, hb, rfl⟩
        · exact h.ty.within
        · exact (hbound.types b hb).within
    · exact (hannotated.types t ht).within
  · refine List.forall_mem_cons.mpr ⟨hflows.owned.within, List.forall_mem_map.mpr fun c hc => ?_⟩
    rcases hchildren c hc with h | ⟨b, hb, rfl⟩
    · exact h.effects.within
    · exact (hbound.effects b hb).within

theorem bound_nil : s.Bound session sites [] :=
  ⟨List.forall_mem_nil _, List.forall_mem_nil _, List.forall_mem_nil _, List.forall_mem_nil _⟩

theorem inferred_of_children (hchildren : ∀ c ∈ e.children, s.Inferred session sites c) (hannotated : s.Annotated session e)
    (hrule : s.Rowed → s.Entails fun A => e.Rule (Ty.value A))
    (hdispatch : ∀ d ∈ e.dispatch?, s.context.errors = [] → ∃ className ∈ d.1, s.Pending e.id className d.2)
    (hty : s.Owns e.ty) (hflows : s.Flows session sites e) (hgroup : e.group = []) : s.Inferred session sites e :=
  inferred_of_group (hgroup ▸ bound_nil) (fun c hc => .inl (hchildren c hc)) hannotated hrule hdispatch hty hflows

theorem Leads.inferredAll (h : s.Leads s') (hs : s.Ready) {es : List TypedExpr} (hes : ∀ e ∈ es, s.Inferred session sites e) :
    ∀ e ∈ es, s'.Inferred session sites e :=
  fun e he => h.inferred hs (hes e he)

end State

namespace InferM

variable {s : State} {session : Session} {sites : Sites} {env : Env}

theorem infers_noted {infer : InferM TypedExpr} (h : Infers session sites env infer) (e : Expr) : Infers session sites env (noted e infer) :=
  fun s hs henv hsupports => (h s hs henv hsupports).noted fun _ _ _ hleads _ hs₁ htyped => hleads.inferred hs₁ htyped

theorem Infers.within {infer : InferM TypedExpr} (h : Infers session sites env infer) (label : String) :
    Infers session sites env (within label infer) :=
  fun _ hs henv hsupports => keeps_within hs fun s₁ h₁ hs₁ =>
    (h s₁ hs₁ (h₁.ownsEnv henv) (h₁.supports hsupports)).mono fun _ _ _ hs₂ he _ h₃ _ => h₃.inferred hs₂ he

section Atoms

theorem infers_literal (id : NodeId) (l : Literal) :
    Infers session sites env (literalType id l >>= fun t => pure (.lit (pureNode id t) l)) := by
  intro s hs _ _
  refine (keeps_literalType hs id l).bind fun t s₁ _ hs₁ ⟨ht, htype⟩ => ?_
  apply keeps_pure hs₁
  refine State.inferred_of_children (List.forall_mem_nil _) (.of_nil rfl rfl) (fun _ A _ t' ht' => ?_) nofun ht
    (State.flows_of_join (State.joins_singleton (State.ownsEffects_none hs₁)) nofun rfl nofun) rfl
  obtain rfl := htype t' ht'
  cases l <;> cases ht' <;> rfl

theorem infers_variableUse (id : NodeId) (name : String) : Infers session sites env (variableUse env id name) := by
  intro s hs henv _
  have hvar {s' : State} (hs' : s'.Ready) {t : Ty} (ht : s'.Owns t) : s'.Inferred session sites (.var (pureNode id t) name) :=
    State.inferred_of_children (List.forall_mem_nil _) (.of_nil rfl rfl) (fun _ _ _ => trivial) nofun ht
      (State.flows_of_join (State.joins_singleton (State.ownsEffects_none hs')) nofun rfl nofun) rfl
  rw [variableUse]
  split
  next scheme hscheme =>
    exact (keeps_instantiate hs (henv scheme (State.mem_schemes_of_lookup hscheme)) id).bind fun t s₁ _ hs₁ ht =>
      keeps_pure hs₁ (hvar hs₁ ht)
  next =>
    refine (keeps_report hs id _).bind fun _ s₁ _ hs₁ _ => ?_
    refine (keeps_freshType hs₁).bind fun t s₂ _ hs₂ ht => ?_
    exact keeps_pure hs₂ (hvar hs₂ ht)

end Atoms

section Functions

theorem infers_function (lambda : Expr) {params : List String} {inferBody : Env → InferM TypedExpr}
    (hlambda : inferExpr session env lambda = noted lambda (function session env lambda params inferBody)) (hsite : sites env lambda)
    (hbody : InfersUnder session sites env params inferBody) :
    Infers session sites env (function session env lambda params inferBody) := by
  intro s hs henv hsupports
  have hinner : Keeps (within "lambda" do
      checkCaptures session env lambda
      let types ← params.mapM fun _ => freshType
      let params := params.zip types
      let body ← inferBody (env.nest (params.map fun p => (p.1, .mono p.2)))
      return (params, body, ← latentEffects session lambda.id body.effects)) s fun x s' =>
        (∀ p ∈ x.1, s'.Owns p.2) ∧ s'.Inferred session sites x.2.1 ∧ s'.OwnsEffects x.2.2 ∧
          s'.Entails (Declares session lambda.id x.2.1.effects x.2.2) ∧ s'.Guards session env lambda s.context := by
    refine keeps_entered hs fun s₁ h₁ hs₁ hentered => ?_
    refine (keeps_checkCaptures hs₁ hentered session (h₁.ownsEnv henv) lambda).bind fun _ s₂ h₂ hs₂ hguards => ?_
    refine (keeps_freshTypes hs₂ params).bind fun types s₃ h₃ hs₃ ⟨hlength, htypes⟩ => ?_
    have h := (h₁.trans h₂).trans h₃
    have hnames : ∀ x ∈ params, x ∈ ((params.zip types).map fun p => (p.1, Scheme.mono p.2)).map Prod.fst := by
      rw [List.map_map]
      change ∀ x ∈ params, x ∈ (params.zip types).map Prod.fst
      rw [List.map_fst_zip hlength.ge]
      exact fun _ hx => hx
    have hparams : ∀ p ∈ params.zip types, s₃.Owns p.2 := fun p hp => htypes p.2 (List.of_mem_zip hp).2
    refine (hbody _ hnames s₃ hs₃ ((h.ownsEnv henv).nest (List.forall_mem_map.mpr fun p hp => State.ownsScheme_mono (hparams p hp)))
      (h.supports hsupports)).bind fun body s₄ h₄ hs₄ hbody => ?_
    refine (keeps_latentEffects hs₄ session lambda.id hbody.effects).bind fun latent s₅ h₅ hs₅ ⟨hlatent, hdeclares⟩ => ?_
    have h' := h₄.trans h₅
    refine keeps_pure hs₅ fun s₆ h₆ _ => ⟨fun p hp => (h'.trans h₆).owns (hparams p hp), (h₅.trans h₆).inferred hs₄ hbody,
      h₆.ownsEffects hlatent, h₆.entails hdeclares, ((h₃.trans h').trans h₆).guards hguards⟩
  have hyields := hinner.and_ensures (R := fun x c' => Yields session env lambda s.context
    (.lambda (pureNode lambda.id (.fn (x.1.map Prod.snd) x.2.2 x.2.1.ty)) x.1 x.2.1) c') (by
      constructor
      all_goals rw [hlambda, run_noted]
      · exact .refl
      · exact .refl _
      · exact fun h => h)
  refine hyields.bind fun x s₁ _ hs₁ ⟨⟨hparams, hbody, hlatent, hdeclares, hguards⟩, hyields⟩ => keeps_pure hs₁ ?_
  have hflows : s₁.Flows session sites (.lambda (pureNode lambda.id (.fn (x.1.map Prod.snd) x.2.2 x.2.1.ty)) x.1 x.2.1) := by
    refine ⟨State.ownsEffects_none hs₁, fun _ _ => ⟨nofun, nofun⟩, fun A hA names hnames => ?_, fun _ => ⟨env, lambda, s.context, hsite, hguards, hyields⟩⟩
    obtain ⟨hdeclared, hbounded⟩ := hdeclares A hA names hnames
    exact ⟨(Effects.elaborate_ok_iff.mp hdeclared).1, ⟨_, _, _, hdeclared, rfl⟩, hbounded⟩
  refine State.inferred_of_children (List.forall_mem_singleton.mpr hbody) ⟨List.forall_mem_map.mpr hparams, List.forall_mem_nil _⟩ (fun _ A _ => ?_) nofun
    (State.owns_fn (List.forall_mem_map.mpr hparams) hlatent hbody.ty) hflows rfl
  have hvalue := Ty.value_fn (A := A) (x.1.map Prod.snd) x.2.2 x.2.1.ty
  rw [List.map_map] at hvalue
  exact ⟨_, hvalue⟩

def Fit (A : Assignment) (args : List TypedExpr) (params : List Ty) : Prop :=
  List.Forall₂ (fun a p => (a.ty.value A).Supplies (p.value A)) args params

theorem keeps_passArguments (hs : s.Ready) {params : List Ty} {args : List TypedExpr} (hparams : ∀ p ∈ params, s.Owns p)
    (hargs : ∀ a ∈ args, s.Owns a.ty) (hlength : params.length = args.length) (index : Nat) :
    Keeps (passArguments index params args) s fun _ s' => s'.Entails fun A => Fit A args params := by
  induction args generalizing s params index with
  | nil =>
      obtain rfl := List.length_eq_zero_iff.mp hlength
      exact keeps_pure hs fun _ _ => .nil
  | cons a args ih =>
      obtain ⟨p, params, rfl⟩ := List.exists_cons_of_length_eq_add_one hlength
      rw [List.forall_mem_cons] at hparams hargs
      refine (keeps_applied hs hargs.1).bind fun t s₁ h₁ hs₁ ht => ?_
      refine (keeps_openLatentEffects hs₁ ht.1).bind fun actual s₂ h₂ hs₂ hactual => ?_
      have h := h₁.trans h₂
      refine (keeps_equate hs₂ a.id _ (h.owns hparams.1) hactual.1).bind fun _ s₃ h₃ hs₃ hequal => ?_
      have h' := h.trans h₃
      refine (ih hs₃ (fun p hp => h'.owns (hparams.2 p hp)) (fun a ha => h'.owns (hargs.2 a ha)) (by simpa using hlength)
        (index + 1)).mono fun _ s₄ h₄ _ hfit A hA => .cons ?_ (hfit A hA)
      have hA₃ := h₄.accepts hA
      have hA₂ := h₃.accepts hA₃
      rw [hequal A hA₃, ← ht.2 A (h₂.accepts hA₂)]
      exact hactual.2 A hA₂

def Calls (A : Assignment) (func : Ty) (args : List TypedExpr) (result : Ty) (latent : Effects) : Prop :=
  ∃ ps, func.value A = .fn ps (latent.value A) (result.value A) ∧ List.Forall₂ (fun a p => (a.ty.value A).Supplies p) args ps

theorem keeps_callee (hs : s.Ready) (id funcId : NodeId) {args : List TypedExpr} {func : Ty} (hargs : ∀ a ∈ args, s.Owns a.ty)
    (hfunc : s.Owns func) : Keeps (callee id funcId args func) s fun x s' =>
      s'.Owns x.1 ∧ s'.OwnsEffects x.2 ∧ s'.Entails fun A => Calls A func args x.1 x.2 := by
  unfold callee
  split
  next params latent result =>
    obtain ⟨hparams, -, hresult⟩ := (State.inherited_owns s).fn hfunc
    have hlatent := State.ownsEffects_latent hfunc
    refine keeps_ite (fun hlength => ?_) fun _ => ?_
    · refine (keeps_passArguments hs hparams hargs hlength 0).bind fun _ s₁ h₁ hs₁ hfit => keeps_pure hs₁ ?_
      refine ⟨h₁.owns hresult, h₁.ownsEffects hlatent, fun A hA => ⟨_, Ty.value_fn .., ?_⟩⟩
      exact List.forall₂_map_right_iff.mpr (hfit A hA)
    · refine (keeps_report hs id _).bind fun _ s₁ h₁ hs₁ hne => ?_
      refine (keeps_freshType hs₁).bind fun t s₂ h₂ hs₂ ht => keeps_pure hs₂ ?_
      exact ⟨ht, State.ownsEffects_none hs₂, State.entails_of_errors fun herrors => hne (h₂.errors herrors)⟩
  next =>
    refine (keeps_freshType hs).bind fun t s₁ h₁ hs₁ ht => ?_
    refine (keeps_freshRow hs₁ none).bind fun r s₂ h₂ hs₂ hr => ?_
    have h := h₁.trans h₂
    have hlatent := State.ownsEffects_opened hs₂ [] hr.1 hr.2
    have hfn := State.owns_fn (List.forall_mem_map.mpr fun a ha => h.owns (hargs a ha)) hlatent (h₂.owns ht)
    refine (keeps_equate hs₂ funcId .application hfn (h.owns hfunc)).bind fun _ s₃ h₃ hs₃ hequal => keeps_pure hs₃ ?_
    refine ⟨h₃.owns (h₂.owns ht), h₃.ownsEffects hlatent, fun A hA => ⟨_, (hequal A hA).symm.trans (Ty.value_fn ..), ?_⟩⟩
    rw [List.map_map, List.forall₂_map_right_iff]
    exact List.forall₂_same.mpr fun a _ => .inl rfl

def InfersAll (session : Session) (sites : Sites) (env : Env) (m : InferM (List TypedExpr)) : Prop :=
  ∀ s : State, s.Ready → s.OwnsEnv env → s.Supports session → Keeps m s fun es s' => ∀ e ∈ es, s'.Inferred session sites e

def called (id : NodeId) (func : Expr) (inferFunc : InferM TypedExpr) (inferArgs : InferM (List TypedExpr)) :
    InferM (TypedExpr × List TypedExpr × Ty × Effects) :=
  within (callLabel func) do
    let func ← inferFunc
    let args ← inferArgs
    flush
    let (result, latent) ← callee id func.id args (← applied func.ty)
    flush
    return (func, args, result, latent)

theorem application_eq (id : NodeId) (func : Expr) (inferFunc : InferM TypedExpr) (inferArgs : InferM (List TypedExpr)) :
    application id func inferFunc inferArgs = called id func inferFunc inferArgs >>= fun x =>
      joinEffects id (x.1.effects :: x.2.1.map TypedExpr.effects ++ [x.2.2.2]) >>= fun effects =>
        pure (.app ⟨id, x.2.2.1, effects⟩ x.1 x.2.1) := rfl

theorem keeps_called (hs : s.Ready) (henv : s.OwnsEnv env) (hsupports : s.Supports session) (id : NodeId) (func : Expr)
    {inferFunc : InferM TypedExpr} {inferArgs : InferM (List TypedExpr)} (hfunc : Infers session sites env inferFunc)
    (hargs : InfersAll session sites env inferArgs) : Keeps (called id func inferFunc inferArgs) s fun x s' =>
      s'.Inferred session sites x.1 ∧ (∀ a ∈ x.2.1, s'.Inferred session sites a) ∧ s'.Owns x.2.2.1 ∧ s'.OwnsEffects x.2.2.2 ∧
        s'.Entails fun A => Calls A x.1.ty x.2.1 x.2.2.1 x.2.2.2 := by
  refine keeps_within hs fun s₁ h₁ hs₁ => ?_
  refine (hfunc s₁ hs₁ (h₁.ownsEnv henv) (h₁.supports hsupports)).bind fun func s₂ h₂ hs₂ hfunc => ?_
  have h := h₁.trans h₂
  refine (hargs s₂ hs₂ (h.ownsEnv henv) (h.supports hsupports)).bind fun args s₃ h₃ hs₃ hargs => ?_
  refine (keeps_flush hs₃).bind fun _ s₄ h₄ hs₄ _ => ?_
  have hfuncTy : s₄.Owns func.ty := (h₃.trans h₄).owns hfunc.ty
  refine (keeps_applied hs₄ hfuncTy).bind fun t s₅ h₅ hs₅ ht => ?_
  refine (keeps_callee hs₅ id func.id (fun a ha => (h₄.trans h₅).owns (hargs a ha).ty) ht.1).bind fun x s₆ h₆ hs₆ hx => ?_
  refine (keeps_flush hs₆).bind fun _ s₇ h₇ hs₇ _ => ?_
  refine keeps_pure hs₇ fun s₈ h₈ _ => ?_
  have h' := (h₆.trans h₇).trans h₈
  have hlater := (h₄.trans h₅).trans h'
  refine ⟨(h₃.trans hlater).inferred hs₂ hfunc, hlater.inferredAll hs₃ hargs, (h₇.trans h₈).owns hx.1,
    (h₇.trans h₈).ownsEffects hx.2.1, fun A hA => ?_⟩
  obtain ⟨ps, hvalue, hfit⟩ := hx.2.2 A ((h₇.trans h₈).accepts hA)
  exact ⟨ps, (ht.2 A (h'.accepts hA)).symm.trans hvalue, hfit⟩

theorem infers_application (id : NodeId) (func : Expr) {inferFunc : InferM TypedExpr} {inferArgs : InferM (List TypedExpr)}
    (hfunc : Infers session sites env inferFunc) (hargs : InfersAll session sites env inferArgs) :
    Infers session sites env (application id func inferFunc inferArgs) := by
  intro s hs henv hsupports
  rw [application_eq]
  refine (keeps_called hs henv hsupports id func hfunc hargs).bind fun x s₁ _ hs₁ hx => ?_
  obtain ⟨hfunc, hargs, hresult, hlatent, hcalls⟩ := hx
  have hrows : ∀ e ∈ x.1.effects :: x.2.1.map TypedExpr.effects ++ [x.2.2.2], s₁.OwnsEffects e := by
    rw [List.forall_mem_append, List.forall_mem_cons, List.forall_mem_map, List.forall_mem_singleton]
    exact ⟨⟨hfunc.effects, fun a ha => (hargs a ha).effects⟩, hlatent⟩
  refine (keeps_joinEffects hs₁ id hrows).bind fun effects s₂ h₂ hs₂ hjoins => keeps_pure hs₂ ?_
  have hflows : s₂.Flows session sites (.app ⟨id, x.2.2.1, effects⟩ x.1 x.2.1) := by
    refine ⟨hjoins.owned, fun A hA => ⟨fun c hc => hjoins.includes A hA _ ?_, fun func hfunc => ?_⟩, fun _ _ => trivial, nofun⟩
    · exact List.mem_append_left _ (List.mem_map_of_mem (f := TypedExpr.effects) (l := x.1 :: x.2.1) hc)
    · obtain rfl := Option.some.inj hfunc
      obtain ⟨ps, hvalue, -⟩ := hcalls A (h₂.accepts hA)
      exact ⟨ps, _, _, hvalue, hjoins.includes A hA _ (List.mem_append_right _ (List.mem_singleton_self _))⟩
  refine State.inferred_of_children (List.forall_mem_cons.mpr ⟨h₂.inferred hs₁ hfunc, h₂.inferredAll hs₁ hargs⟩)
    (.of_nil rfl rfl) (fun _ A hA => ?_) nofun (h₂.owns hresult) hflows rfl
  obtain ⟨ps, hvalue, hfit⟩ := hcalls A (h₂.accepts hA)
  exact ⟨ps, _, hvalue, hfit⟩

end Functions

section Lets

theorem infers_letIn (id : NodeId) (name : String) (value : Expr) {inferValue : InferM TypedExpr}
    {inferBody : Env → InferM TypedExpr} (hvalue : Infers session sites env inferValue) (hbody : InfersUnder session sites env [name] inferBody) :
    Infers session sites env (letIn session env id name value inferValue inferBody) := by
  intro s hs henv hsupports
  have hbinding : Keeps (InferM.within (Decl.letLabel name) (binding session env value .nested inferValue)) s fun b s' =>
      s'.Bound session sites [⟨name, b.1, b.2⟩] := by
    refine keeps_within hs fun s₁ h₁ hs₁ => ?_
    refine (keeps_binding hs₁ (h₁.ownsEnv henv) (h₁.supports hsupports) hvalue value).mono fun _ _ _ hs₂ hb _ h₃ _ => ?_
    exact h₃.bound hs₂ (hb.1 name)
  refine hbinding.bind fun b s₁ h₁ hs₁ hbound => ?_
  have hscheme : s₁.OwnsScheme b.1 := hbound.schemes _ (List.mem_singleton_self _)
  refine (hbody [(name, b.1)] (fun _ hx => hx) s₁ hs₁ ((h₁.ownsEnv henv).nest (List.forall_mem_singleton.mpr hscheme)) (h₁.supports hsupports)).bind
    fun body s₂ h₂ hs₂ hbody => ?_
  have hbound₂ := h₂.bound hs₁ hbound
  refine (keeps_joinEffects hs₂ id  ?_).bind fun effects s₃ h₃ hs₃ hjoins => keeps_pure hs₃ ?_
  · exact List.forall_mem_cons.mpr ⟨hbound₂.effects _ (List.mem_singleton_self _), List.forall_mem_singleton.mpr hbody.effects⟩
  · have hbody₃ := h₃.inferred hs₂ hbody
    refine State.inferred_of_group (h₃.bound hs₂ hbound₂) ?_ (.of_nil rfl rfl) (fun _ _ _ => rfl) nofun hbody₃.ty
      (State.flows_of_join hjoins (fun c hc => List.mem_map_of_mem hc) rfl nofun)
    exact List.forall_mem_cons.mpr ⟨.inr ⟨_, List.mem_singleton_self _, rfl⟩, List.forall_mem_singleton.mpr (.inl hbody₃)⟩

theorem infers_letRec (id : NodeId) (bindings : List Binding) {inferValues : Env → List Ty → InferM (List TypedExpr)}
    {inferBody : Env → InferM TypedExpr} (hvalues : InfersGroup session sites env bindings inferValues)
    (hbody : InfersUnder session sites env (bindings.map Prod.fst) inferBody) :
    Infers session sites env (letRec session env id bindings inferValues inferBody) := by
  intro s hs henv hsupports
  have hgroup : Keeps (InferM.within (Decl.letRecLabel bindings) (recGroup session env id bindings .nested inferValues)) s
      fun group s' => s'.Bound session sites group ∧ group.map TypedBinding.name = bindings.map Prod.fst := by
    refine keeps_within hs fun s₁ h₁ hs₁ => ?_
    refine (keeps_recGroup hs₁ (h₁.ownsEnv henv) (h₁.supports hsupports) id bindings hvalues).mono fun _ _ _ hs₂ hb _ h₃ _ => ?_
    exact ⟨h₃.bound hs₂ hb.1, hb.2.1⟩
  refine hgroup.bind fun group s₁ h₁ hs₁ ⟨hbound, hnames⟩ => ?_
  have hnested : (group.map fun b => (b.name, b.scheme)).map Prod.fst = bindings.map Prod.fst := (List.map_map ..).trans hnames
  refine (hbody _ (fun x hx => hnested ▸ hx) s₁ hs₁ ((h₁.ownsEnv henv).nest (List.forall_mem_map.mpr hbound.schemes)) (h₁.supports hsupports)).bind
    fun body s₂ h₂ hs₂ hbody => ?_
  have hbound₂ := h₂.bound hs₁ hbound
  refine (keeps_joinEffects hs₂ id  ?_).bind
    fun effects s₃ h₃ hs₃ hjoins => keeps_pure hs₃ ?_
  · exact List.forall_mem_append.mpr ⟨List.forall_mem_map.mpr hbound₂.effects, List.forall_mem_singleton.mpr hbody.effects⟩
  · have hbody₃ := h₃.inferred hs₂ hbody
    refine State.inferred_of_group (h₃.bound hs₂ hbound₂) ?_ (.of_nil rfl rfl) (fun _ _ _ => rfl) nofun hbody₃.ty
      (State.flows_of_join hjoins ?_ rfl nofun)
    · exact List.forall_mem_append.mpr ⟨List.forall_mem_map.mpr fun b hb => .inr ⟨b, hb, rfl⟩, List.forall_mem_singleton.mpr (.inl hbody₃)⟩
    · exact List.forall_mem_append.mpr ⟨List.forall_mem_map.mpr fun b hb => List.mem_append_left _ (List.mem_map_of_mem hb),
        List.forall_mem_singleton.mpr (List.mem_append_right _ (List.mem_singleton_self _))⟩

end Lets

end InferM

end RowTyping
