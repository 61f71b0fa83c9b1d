import RowTyping.Proofs.Inference.Expressions
import RowTyping.Proofs.Inference.Passage

namespace RowTyping

namespace State

variable {s s' : State} {session : Session} {env : Env}

structure Hosts (s : State) (session : Session) (env : Env) : Prop where
  ready : s.Ready
  owned : s.OwnsEnv env
  supports : s.Supports session
  plain : s.layout = none

theorem Hosts.later (h : s.Hosts session env) (hfollows : s.Follows s') (hs' : s'.Ready) : s'.Hosts session env where
  ready := hs'
  owned := hfollows.ownsEnv h.owned
  supports := hfollows.supports h.supports
  plain := by
    have hsome := hfollows.isSome
    rw [h.plain] at hsome
    exact Option.isSome_eq_false_iff.mp hsome |> Option.isNone_iff_eq_none.mp

theorem Hosts.opened (h : s.Hosts session env) : s.opened.Hosts session env :=
  h.later (.opened s) h.ready.opened

theorem Hosts.nest (h : s.Hosts session env) {bs : List (String × Scheme)} (hbs : ∀ b ∈ bs, s.OwnsScheme b.2) :
    s.Hosts session (env.nest bs) :=
  ⟨h.ready, h.owned.nest hbs, h.supports, h.plain⟩

structure OwnsExpr (s : State) (e : TypedExpr) : Prop where
  ty : s.Owns e.ty
  effects : s.OwnsEffects e.effects

theorem Follows.ownsExpr (h : s.Follows s') {e : TypedExpr} (he : s.OwnsExpr e) : s'.OwnsExpr e :=
  ⟨h.owns he.ty, h.ownsEffects he.effects⟩

theorem Inferred.ownsExpr {sites : Sites} {e : TypedExpr} (h : s.Inferred session sites e) : s.OwnsExpr e :=
  ⟨h.ty, h.effects⟩

end State

namespace InferM

open State

variable {α β : Type} {s₀ s : State} {session : Session} {env env' : Env} {ids ids' : List NodeId} {es : List TypedExpr}
  {Q : α → State → Prop} {R : β → State → Prop} {m : InferM α} {f : α → InferM β}

theorem Keeps.and {Q' : α → State → Prop} (hplain : s.layout = none) (h : Keeps m s Q) (h' : Keeps m s Q') :
    Keeps m s fun a s' => Q a s' ∧ Q' a s' := by
  obtain ⟨l, hleads, hready, hQ⟩ := h
  obtain ⟨l', hleads', -, hQ'⟩ := h'
  have hlayout := hleads.layout
  have hlayout' := hleads'.layout
  rw [hplain] at hlayout hlayout'
  cases hlayout
  cases hlayout'
  exact ⟨none, hleads, hready, hQ, hQ'⟩

structure Makes (session : Session) (env : Env) (s₀ : State) (ids : List NodeId) (es : List TypedExpr) (s : State) : Prop where
  hosts : s.Hosts session env
  owned : ∀ e ∈ es, s.OwnsExpr e
  tracks : s₀.Tracks ids (es.flatMap TypedExpr.nodes) s

def Tracked (session : Session) (env : Env) (ids : List NodeId) (parts : α → List TypedExpr) (m : InferM α) : Prop :=
  ∀ s : State, s.Hosts session env → Keeps m s fun a s' =>
    (∀ e ∈ parts a, s'.Inferred session .anywhere e) ∧ s.Tracks ids ((parts a).flatMap TypedExpr.nodes) s'

def Builds (session : Session) (env : Env) (ids : List NodeId) (m : InferM TypedExpr) : Prop :=
  ∀ s : State, s.Hosts session env → Keeps m s fun e s' => s.Tracks ids e.nodes s'

abbrev TracksOne (session : Session) (env : Env) (ids : List NodeId) (m : InferM TypedExpr) : Prop :=
  Tracked session env ids (fun e => [e]) m

theorem Builds.tracked {m : InferM TypedExpr} (h : Builds session env ids m) (hinfers : Infers session .anywhere env m) :
    TracksOne session env ids m := by
  intro s hs
  refine ((hinfers s hs.ready hs.owned hs.supports).and hs.plain (h s hs)).mono fun e s' _ _ ⟨he, htracks⟩ => ?_
  rw [List.flatMap_singleton]
  exact ⟨List.forall_mem_singleton.mpr he, htracks⟩

namespace Makes

theorem start (h : s.Hosts session env) : Makes session env s [] [] s :=
  ⟨h, List.forall_mem_nil _, .of_calm (.refl _)⟩

theorem later {s' : State} (h : Makes session env s₀ ids es s) (hleads : s.Leads s') (hs' : s'.Ready) (hcalm : s.context.Calm s'.context) :
    Makes session env s₀ ids es s' :=
  ⟨h.hosts.later hleads.toFollows hs', fun e he => hleads.ownsExpr (h.owned e he), h.tracks.calm hcalm hleads.toFollows⟩

theorem calm (h : Makes session env s₀ ids es s) (hm : Keeps m s Q) (hcalm : Ensures m s.context fun _ c' => s.context.Calm c')
    (hf : ∀ a s', s.Leads s' → Q a s' → Makes session env s₀ ids es s' → Keeps (f a) s' R) : Keeps (m >>= f) s R :=
  (hm.and_ensures hcalm).bind fun a s' hleads hs' ⟨hQ, hcalm⟩ => hf a s' hleads hQ (h.later hleads hs' hcalm)

theorem idle (h : Makes session env s₀ ids es s) (hm : Keeps m s Q) (hidles : Idles m)
    (hf : ∀ a s', s.Leads s' → Q a s' → Makes session env s₀ ids es s' → Keeps (f a) s' R) : Keeps (m >>= f) s R :=
  h.calm hm (hidles.calm s.context) hf

theorem alike (h : Makes session env s₀ ids es s) {g : Context → Context} (hg : s.context.Alike (g s.context))
    {f : Unit → InferM β} (hf : ∀ s', s.Leads s' → s' = ⟨g s.context, s.layout⟩ → Makes session env s₀ ids es s' → Keeps (f ()) s' R) :
    Keeps (modify g >>= f) s R := by
  refine (keeps_modify h.hosts.ready hg).bind fun _ s' hleads hs' heq => hf s' hleads heq (h.later hleads hs' ?_)
  subst heq
  exact .of_eq hg.classes hg.resolved

theorem step (h : Makes session env s₀ ids es s) {parts : α → List TypedExpr}
    (hm : Keeps m s fun a s' => Q a s' ∧ (∀ e ∈ parts a, s'.OwnsExpr e) ∧ s.Tracks ids' ((parts a).flatMap TypedExpr.nodes) s')
    (hf : ∀ a s', s.Leads s' → Q a s' → Makes session env s₀ (ids ++ ids') (es ++ parts a) s' → Keeps (f a) s' R) :
    Keeps (m >>= f) s R := by
  refine hm.bind fun a s' hleads hs' ⟨hQ, howned, htracks⟩ => hf a s' hleads hQ ⟨h.hosts.later hleads.toFollows hs', ?_, ?_⟩
  · exact List.forall_mem_append.mpr ⟨fun e he => hleads.ownsExpr (h.owned e he), howned⟩
  · rw [List.flatMap_append]
    exact h.tracks.trans htracks hleads.toFollows

theorem made (h : Makes session env s₀ ids es s) {parts : α → List TypedExpr}
    (hm : Keeps m s fun a s' => (∀ e ∈ parts a, s'.Inferred session .anywhere e) ∧ s.Tracks ids' ((parts a).flatMap TypedExpr.nodes) s')
    (hf : ∀ a s', s.Leads s' → (∀ e ∈ parts a, s'.Inferred session .anywhere e) →
      Makes session env s₀ (ids ++ ids') (es ++ parts a) s' → Keeps (f a) s' R) : Keeps (m >>= f) s R :=
  h.step (hm.mono fun _ _ _ _ ⟨hes, htracks⟩ => ⟨hes, fun e he => (hes e he).ownsExpr, htracks⟩) hf

theorem part (h : Makes session env s₀ ids es s) {parts : α → List TypedExpr} (hs : s.Hosts session env')
    (hm : Tracked session env' ids' parts m) (hf : ∀ a s', s.Leads s' → (∀ e ∈ parts a, s'.Inferred session .anywhere e) →
      Makes session env s₀ (ids ++ ids') (es ++ parts a) s' → Keeps (f a) s' R) : Keeps (m >>= f) s R :=
  h.made (hm s hs) hf

theorem rows (h : Makes session env s₀ ids es s) : ∀ e ∈ es.map TypedExpr.effects, s.OwnsEffects e :=
  List.forall_mem_map.mpr fun e he => (h.owned e he).effects

theorem done {n : TypedExpr} (h : Makes session env s₀ ids n.children s) (hdispatch : n.dispatch? = none) :
    Keeps (pure n) s fun e s' => s₀.Tracks (n.id :: ids) e.nodes s' :=
  keeps_pure h.hosts.ready (h.tracks.silent n.nodes_eq hdispatch)

end Makes

end InferM

end RowTyping
