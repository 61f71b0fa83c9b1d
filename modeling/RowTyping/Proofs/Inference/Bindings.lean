import RowTyping.Proofs.Inference.Boundary

namespace RowTyping

namespace State

variable {s s' : State} {session : Session} {sites : Sites} {group : List TypedBinding}

structure Bound (s : State) (session : Session) (sites : Sites) (group : List TypedBinding) : Prop where
  schemes : ∀ b ∈ group, s.OwnsScheme b.scheme
  types : ∀ b ∈ group, s.Owns b.value.ty
  effects : ∀ b ∈ group, s.OwnsEffects b.value.effects
  typed : ∀ b ∈ group, s.Typed session sites group b.value

theorem Leads.bound (h : s.Leads s') (hs : s.Ready) (hbound : s.Bound session sites group) : s'.Bound session sites group :=
  ⟨fun b hb => h.ownsScheme (hbound.schemes b hb), fun b hb => h.owns (hbound.types b hb),
    fun b hb => h.ownsEffects (hbound.effects b hb), fun b hb => h.typed hs (hbound.typed b hb)⟩

theorem Inferred.apply (hs : s.Ready) {e : TypedExpr} (ht : s.Owns e.ty) (heffects : s.OwnsEffects e.effects) :
    s.Owns (s.subst.applyExpr e).ty ∧ s.OwnsEffects (s.subst.applyExpr e).effects := by
  rw [Substitution.ty_applyExpr, TypedExpr.effects, Substitution.info_applyExpr]
  exact ⟨ht.apply hs, heffects.applyEffects hs⟩

theorem Typed.of_plain {e : TypedExpr} (he : s.Typed session sites group e) (hplain : ∀ b ∈ group, b.scheme.predicates = []) :
    s.Typed session sites [] e := by
  refine ⟨he.nodes, fun n hn d hd herrors => ?_⟩
  obtain ⟨className, hclass, hcases⟩ := he.accounted n hn d hd herrors
  refine ⟨className, hclass, hcases.imp_right fun hcases => hcases.imp_right fun hcases => hcases.imp_right ?_⟩
  rintro ⟨b, hb, p, hp, -⟩
  rw [hplain b hb] at hp
  cases hp

end State

namespace InferM

variable {s : State} {session : Session} {sites : Sites} {env : Env} {level : BindingLevel}

def Infers (session : Session) (sites : Sites) (env : Env) (m : InferM TypedExpr) : Prop :=
  ∀ s : State, s.Ready → s.OwnsEnv env → s.Supports session → Keeps m s fun e s' => s'.Inferred session sites e

def InfersUnder (session : Session) (sites : Sites) (env : Env) (names : List String) (infer : Env → InferM TypedExpr) : Prop :=
  ∀ bs : List (String × Scheme), (∀ x ∈ names, x ∈ bs.map Prod.fst) → Infers session sites (env.nest bs) (infer (env.nest bs))

def InfersValues (session : Session) (sites : Sites) (env : Env) (bindings : List Binding)
    (infer : List Ty → InferM (List TypedExpr)) : Prop :=
  ∀ ts, ts.length = bindings.length → ∀ s : State, s.Ready → s.OwnsEnv env → s.Supports session → (∀ t ∈ ts, s.Owns t) →
    Keeps (infer ts) s fun es s' => es.length = bindings.length ∧ ∀ e ∈ es, s'.Inferred session sites e

def InfersGroup (session : Session) (sites : Sites) (env : Env) (bindings : List Binding)
    (infer : Env → List Ty → InferM (List TypedExpr)) : Prop :=
  ∀ bs : List (String × Scheme), (∀ x ∈ bindings.map Prod.fst, x ∈ bs.map Prod.fst) →
    InfersValues session sites (env.nest bs) bindings (infer (env.nest bs))

def Settles (level : BindingLevel) (s s' : State) : Prop :=
  level = .topLevel → s.context.classes.toList = [] → s'.context.classes.toList = []

theorem keeps_binding (hs : s.Ready) (henv : s.OwnsEnv env) (hsupports : s.Supports session) {infer : InferM TypedExpr}
    (hinfer : Infers session sites env infer) (value : Expr) :
    Keeps (binding session env value level infer) s fun b s' => (∀ name, s'.Bound session sites [⟨name, b.1, b.2⟩]) ∧ Settles level s s' := by
  have hopened := State.Follows.opened s
  refine keeps_boundary ((hinfer _ hs.opened (hopened.ownsEnv henv) (hopened.supports hsupports)).closes fun e s₁ h₁ hs₁ he => ?_)
  refine (closes_closeBoundary h₁ hs₁ ((hopened.trans h₁.toFollows).supports hsupports) env value.id
    (List.forall_mem_singleton.mpr he.ty) level value.isValue).bind fun schemes s₂ h₂ hs₂ hclosed => keeps_get (keeps_pure hs₂ ?_)
  obtain ⟨scheme, rfl⟩ := List.length_eq_one_iff.mp hclosed.length
  refine ⟨fun name => ?_, hclosed.top⟩
  have happlied := State.Inferred.apply hs₂ (hclosed.follows.owns he.ty) (hclosed.follows.ownsEffects he.effects)
  refine ⟨?_, ?_, ?_, ?_⟩
  · exact List.forall_mem_singleton.mpr (hclosed.owned scheme (List.mem_singleton_self _))
  · exact List.forall_mem_singleton.mpr happlied.1
  · exact List.forall_mem_singleton.mpr happlied.2
  · exact List.forall_mem_singleton.mpr ((hclosed.typed _ _ rfl e he.toTyped).apply hs₂)

theorem keeps_topLevel (hs : s.Ready) (henv : s.OwnsEnv env) (hsupports : s.Supports session) {infer : InferM TypedExpr}
    (hinfer : Infers session sites env infer) (e : Expr) :
    Keeps (topLevel session env e infer) s fun e s' => s'.Inferred session sites e ∧ Settles .topLevel s s' := by
  have hopened := State.Follows.opened s
  refine keeps_boundary ((hinfer _ hs.opened (hopened.ownsEnv henv) (hopened.supports hsupports)).closes fun typed s₁ h₁ hs₁ he => ?_)
  refine (closes_closeBoundary h₁ hs₁ ((hopened.trans h₁.toFollows).supports hsupports) env e.id
    (List.forall_mem_singleton.mpr he.ty) .topLevel false).bind fun schemes s₂ h₂ hs₂ hclosed => keeps_get (keeps_pure hs₂ ?_)
  obtain ⟨scheme, rfl⟩ := List.length_eq_one_iff.mp hclosed.length
  have happlied := State.Inferred.apply hs₂ (hclosed.follows.owns he.ty) (hclosed.follows.ownsEffects he.effects)
  have htyped : s₂.Typed session sites [⟨"", scheme, typed⟩] typed := hclosed.typed _ _ rfl typed he.toTyped
  refine ⟨⟨(htyped.of_plain ?_).apply hs₂, happlied.1, happlied.2⟩, hclosed.top⟩
  exact List.forall_mem_singleton.mpr (hclosed.plain rfl scheme (List.mem_singleton_self _))

theorem keeps_freshTypes {β : Type} (hs : s.Ready) (bs : List β) :
    Keeps (bs.mapM fun _ => freshType) s fun ts s' => ts.length = bs.length ∧ ∀ t ∈ ts, s'.Owns t := by
  refine (keeps_mapM (R := fun _ t s => s.Owns t) hs (fun _ _ _ _ h => h.owns) fun _ _ s' _ hs' => keeps_freshType hs').mono ?_
  intro ts s' _ _ h
  refine ⟨h.length_eq.symm, ?_⟩
  induction h with
  | nil => exact List.forall_mem_nil _
  | cons howns _ ih => exact List.forall_mem_cons.mpr ⟨howns, ih⟩

theorem keeps_recGroup (hs : s.Ready) (henv : s.OwnsEnv env) (hsupports : s.Supports session) (node : NodeId)
    (bindings : List Binding) {infer : Env → List Ty → InferM (List TypedExpr)}
    (hinfer : InfersGroup session sites env bindings infer) :
    Keeps (recGroup session env node bindings level infer) s fun group s' =>
      s'.Bound session sites group ∧ group.map TypedBinding.name = bindings.map Prod.fst ∧ Settles level s s' := by
  have hopened := State.Follows.opened s
  refine keeps_boundary ((keeps_freshTypes hs.opened bindings).closes fun ts s₁ h₁ hs₁ ⟨hlength, hts⟩ => ?_)
  have h := hopened.trans h₁.toFollows
  have hinner : s₁.OwnsEnv (env.nest ((bindings.map Prod.fst).zip (ts.map Scheme.mono))) := (h.ownsEnv henv).nest fun b hb => by
    obtain ⟨t, ht, heq⟩ := List.mem_map.mp (List.of_mem_zip hb).2
    exact heq ▸ State.ownsScheme_mono (hts t ht)
  have hnames : ∀ x ∈ bindings.map Prod.fst, x ∈ ((bindings.map Prod.fst).zip (ts.map Scheme.mono)).map Prod.fst := by
    rw [List.map_fst_zip (by simp [hlength])]
    exact fun _ hx => hx
  refine (hinfer _ hnames ts hlength s₁ hs₁ hinner (h.supports hsupports) hts).closes fun es s₂ h₂ hs₂ ⟨hes, hinferred⟩ => ?_
  refine (closes_closeBoundary (h₁.trans h₂) hs₂ ((h.trans h₂.toFollows).supports hsupports) env node
    (fun t ht => h₂.owns (hts t ht)) level (bindings.all fun b => b.2.isValue)).bind fun schemes s₃ h₃ hs₃ hclosed => ?_
  refine keeps_get (keeps_pure hs₃ ?_)
  have hschemes : schemes.length = bindings.length := hclosed.length.trans hlength
  set group := ((bindings.map Prod.fst).zip (es.zip schemes)).map fun x => (⟨x.1, x.2.2, s₃.subst.applyExpr x.2.1⟩ : TypedBinding) with hgroup
  have hmap : group.map TypedBinding.scheme = schemes := by
    rw [hgroup, List.map_map]
    change ((bindings.map Prod.fst).zip (es.zip schemes)).map (Prod.snd ∘ Prod.snd) = schemes
    rw [← List.map_map, List.map_snd_zip (by simp [hes, hschemes]), List.map_snd_zip (by simp [hes, hschemes])]
  have hmem {b : TypedBinding} (hb : b ∈ group) : b.scheme ∈ schemes ∧ ∃ e ∈ es, b.value = s₃.subst.applyExpr e := by
    obtain ⟨x, hx, rfl⟩ := List.mem_map.mp hb
    have hx := List.of_mem_zip (List.of_mem_zip hx).2
    exact ⟨hx.2, _, hx.1, rfl⟩
  refine ⟨⟨fun b hb => hclosed.owned _ (hmem hb).1, fun b hb => ?_, fun b hb => ?_, fun b hb => ?_⟩, ?_, hclosed.top⟩
  · obtain ⟨-, e, he, hvalue⟩ := hmem hb
    exact hvalue ▸ (State.Inferred.apply hs₃ (hclosed.follows.owns (hinferred e he).ty)
      (hclosed.follows.ownsEffects (hinferred e he).effects)).1
  · obtain ⟨-, e, he, hvalue⟩ := hmem hb
    exact hvalue ▸ (State.Inferred.apply hs₃ (hclosed.follows.owns (hinferred e he).ty)
      (hclosed.follows.ownsEffects (hinferred e he).effects)).2
  · obtain ⟨-, e, he, hvalue⟩ := hmem hb
    exact hvalue ▸ (hclosed.typed _ group hmap e (hinferred e he).toTyped).apply hs₃
  · rw [hgroup, List.map_map]
    exact List.map_fst_zip (by simp [hes, hschemes])

end InferM

end RowTyping
