import RowTyping.Proofs.Inference.Nodes
import RowTyping.Proofs.Inference.Programs

namespace RowTyping

theorem TypedExpr.operands_subset_types (e : TypedExpr) : ∀ t ∈ e.operands, t ∈ e.types := by
  intro t ht
  refine List.mem_cons_of_mem _ (List.mem_append_left _ ?_)
  cases e with
  | binary => exact ht
  | unary => exact ht
  | _ => cases ht

theorem Substitution.operands_applyExpr (s : Substitution) (e : TypedExpr) : (s.applyExpr e).operands = e.operands.map s.apply := by
  cases e with
  | binary => simp [applyExpr, TypedExpr.operands, ty_applyExpr]
  | unary => simp [applyExpr, TypedExpr.operands, ty_applyExpr]
  | _ => rfl

theorem Substitution.isVar_applyExpr (s : Substitution) (e : TypedExpr) : (s.applyExpr e).isVar = e.isVar := by
  cases e <;> rfl

theorem Substitution.nodes_map_applyExpr (s : Substitution) (es : List TypedExpr) :
    (es.map s.applyExpr).flatMap TypedExpr.nodes = (es.flatMap TypedExpr.nodes).map s.applyExpr := by
  rw [List.flatMap_map, List.map_flatMap]
  simp only [nodes_applyExpr]

namespace State

variable {s s₁ s' : State} {n : TypedExpr} {ids : List NodeId} {ns : List TypedExpr}

theorem Serves.apply (h : s.Serves n) (hs : s.Ready) (hwithin : ∀ t ∈ n.types, t.Within s.supply) : s.Serves (s.subst.applyExpr n) where
  dispatched p hp := by
    rw [Substitution.id_applyExpr] at hp
    rw [Substitution.dispatch?_applyExpr]
    obtain ⟨d, hd, hclass, hunites⟩ := h.dispatched p hp
    refine ⟨_, Option.mem_map_of_mem _ hd, hclass, hunites.trans ?_⟩
    exact (unites_apply (hwithin _ (TypedExpr.dispatch?_mem_types hd)).1).symm
  single p p' hp hp' := by
    rw [Substitution.id_applyExpr] at hp hp'
    exact h.single p p' hp hp'
  operands d hd t ht := by
    rw [Substitution.dispatch?_applyExpr] at hd
    rw [Substitution.operands_applyExpr] at ht
    obtain ⟨d₀, hd₀, rfl⟩ := Option.map_eq_some_iff.mp hd
    obtain ⟨t₀, ht₀, rfl⟩ := List.mem_map.mp ht
    have hleft := hs.same_apply (hwithin _ (TypedExpr.dispatch?_mem_types hd₀))
    exact hleft.trans ((h.operands d₀ hd₀ t₀ ht₀).trans (hs.same_apply (hwithin t₀ (n.operands_subset_types t₀ ht₀))).symm)

theorem Tracks.apply (h : s.Tracks ids ns s') (hs' : s'.Ready) (hwithin : ∀ n ∈ ns, ∀ t ∈ n.types, t.Within s'.supply) :
    s.Tracks ids (ns.map s'.subst.applyExpr) s' where
  perm := by
    rw [List.map_map, show TypedExpr.id ∘ s'.subst.applyExpr = TypedExpr.id from funext s'.subst.id_applyExpr]
    exact h.perm
  traces := h.traces
  serves hnodup hspares := List.forall_mem_map.mpr fun n hn hvar =>
    (h.serves hnodup hspares n hn (s'.subst.isVar_applyExpr n ▸ hvar)).apply hs' (hwithin n hn)

theorem Tracks.of_opened (h : s.opened.Tracks ids ns s') (hfollows : s.opened.Follows s') : s.Tracks ids ns s' := by
  have hcalm : s.context.Calm s.opened.context := by
    intro i p hp
    have hclasses : s.opened.context.classes.toList = s.context.classes.toList := Scopes.toList_pushScope _
    rwa [Context.Demands, hclasses] at hp
  exact (Tracks.of_calm hcalm).trans h hfollows

end State

namespace InferM

open State

variable {α : Type} {s s₁ : State} {session : Session} {env : Env} {ids ids' ids₁ ids₂ ids₃ : List NodeId} {id : NodeId}
  {level : BindingLevel}

section Boundaries

theorem Closes.and_ensures {m : InferM α} {Q : α → State → Prop} {R : α → Context → Prop} (hm : Closes m s s₁ Q)
    (h : Ensures m s₁.context R) : Closes m s s₁ fun a s' => Q a s' ∧ R a s'.context := by
  obtain ⟨l, hleads, hready, hQ⟩ := hm
  exact ⟨l, hleads, hready, hQ, h⟩

theorem closes_tracks (h₁ : s.opened.Leads s₁) (hs₁ : s₁.Hosts session env) {es : List TypedExpr}
    (hes : ∀ e ∈ es, s₁.Inferred session .anywhere e) (htracks : s.opened.Tracks ids (es.flatMap TypedExpr.nodes) s₁) (node : NodeId)
    {ts : List Ty} (hts : ∀ t ∈ ts, s₁.Owns t) (level : BindingLevel) (generalizable : Bool) :
    Closes (closeBoundary session env node ts level generalizable) s s₁ fun schemes s' => schemes.length = ts.length ∧
      s.Tracks ids ((es.map s'.subst.applyExpr).flatMap TypedExpr.nodes) s' := by
  have hclosed := (closes_closeBoundary h₁ hs₁.ready hs₁.supports env node hts level generalizable).and_ensures
    (closeBoundary_traces hs₁.ready hs₁.supports node hts level generalizable none)
  rw [← bind_pure (closeBoundary session env node ts level generalizable)]
  refine hclosed.bind fun schemes s₂ _ hs₂ ⟨hclosed, htraces⟩ => keeps_pure hs₂ ⟨hclosed.length, ?_⟩
  have htraces : ∀ i, s₁.Traces s₂ i := htraces
  have hwithin : ∀ n ∈ es.flatMap TypedExpr.nodes, ∀ t ∈ n.types, t.Within s₂.supply := by
    intro n hn
    obtain ⟨e, he, hn⟩ := List.mem_flatMap.mp hn
    exact (hclosed.follows.nodeTyped ((hes e he).nodes n hn)).within
  rw [Substitution.nodes_map_applyExpr]
  exact ((htracks.of_opened h₁.toFollows).follow htraces hclosed.follows).apply hs₂ hwithin

theorem keeps_binding_tracks (hs : s.Hosts session env) {infer : InferM TypedExpr} (hinfers : Infers session .anywhere env infer)
    (hm : TracksOne session env ids infer) (value : Expr) (level : BindingLevel) :
    Keeps (binding session env value level infer) s fun b s' =>
      ((∀ name, s'.Bound session .anywhere [⟨name, b.1, b.2⟩]) ∧ Settles level s s') ∧ s.Tracks ids b.2.nodes s' := by
  apply (keeps_binding hs.ready hs.owned hs.supports hinfers value).and hs.plain
  refine keeps_boundary ((hm s.opened hs.opened).closes fun e s₁ h₁ hs₁ ⟨he, htracks⟩ => ?_)
  have hhosts := hs.opened.later h₁.toFollows hs₁
  have hclosed := closes_tracks h₁ hhosts he htracks value.id (List.forall_mem_singleton.mpr (he e (List.mem_singleton_self e)).ty)
    level value.isValue
  refine hclosed.bind fun schemes s₂ _ hs₂ ⟨_, htracks⟩ => keeps_get (keeps_pure hs₂ ?_)
  rwa [List.map_singleton, List.flatMap_singleton] at htracks

theorem keeps_topLevel_tracks (hs : s.Hosts session env) {infer : InferM TypedExpr} (hinfers : Infers session .anywhere env infer)
    (hm : TracksOne session env ids infer) (e : Expr) :
    Keeps (topLevel session env e infer) s fun e s' => (s'.Inferred session .anywhere e ∧ Settles .topLevel s s') ∧
      s.Tracks ids e.nodes s' := by
  apply (keeps_topLevel hs.ready hs.owned hs.supports hinfers e).and hs.plain
  refine keeps_boundary ((hm s.opened hs.opened).closes fun typed s₁ h₁ hs₁ ⟨he, htracks⟩ => ?_)
  have hhosts := hs.opened.later h₁.toFollows hs₁
  have hclosed := closes_tracks h₁ hhosts he htracks e.id (List.forall_mem_singleton.mpr (he typed (List.mem_singleton_self typed)).ty)
    .topLevel false
  refine hclosed.bind fun schemes s₂ _ hs₂ ⟨_, htracks⟩ => keeps_get (keeps_pure hs₂ ?_)
  rwa [List.map_singleton, List.flatMap_singleton] at htracks

def TracksValues (session : Session) (ids : List NodeId) (bindings : List Binding) (infer : Env → List Ty → InferM (List TypedExpr)) :
    Prop :=
  ∀ (env : Env) (ts : List Ty) (s : State), s.Hosts session env → ts.length = bindings.length → (∀ t ∈ ts, s.Owns t) →
    Keeps (infer env ts) s fun es s' => (es.length = bindings.length ∧ ∀ e ∈ es, s'.Inferred session .anywhere e) ∧
      s.Tracks ids (es.flatMap TypedExpr.nodes) s'

theorem keeps_recGroup_tracks (hs : s.Hosts session env) (node : NodeId) (bindings : List Binding) (level : BindingLevel)
    {infer : Env → List Ty → InferM (List TypedExpr)} (hinfers : InfersGroup session .anywhere env bindings infer)
    (hm : TracksValues session ids bindings infer) :
    Keeps (recGroup session env node bindings level infer) s fun group s' => (s'.Bound session .anywhere group ∧
      group.map TypedBinding.name = bindings.map Prod.fst ∧ Settles level s s') ∧
        s.Tracks ids ((group.map TypedBinding.value).flatMap TypedExpr.nodes) s' := by
  apply (keeps_recGroup hs.ready hs.owned hs.supports node bindings hinfers).and hs.plain
  have hfresh := (keeps_freshTypes hs.opened.ready bindings).and_ensures ((idles_mapM (fun _ => idles_freshType) bindings).calm _)
  refine keeps_boundary (hfresh.closes fun ts s₁ h₁ hs₁ ⟨⟨hlength, hts⟩, hcalm⟩ => ?_)
  have hhosts₁ := hs.opened.later h₁.toFollows hs₁
  have hinner : s₁.Hosts session (env.nest ((bindings.map Prod.fst).zip (ts.map Scheme.mono))) := hhosts₁.nest fun b hb => by
    obtain ⟨t, ht, heq⟩ := List.mem_map.mp (List.of_mem_zip hb).2
    exact heq ▸ State.ownsScheme_mono (hts t ht)
  refine (hm _ ts s₁ hinner hlength hts).closes fun es s₂ h₂ hs₂ ⟨⟨hes, hinferred⟩, htracks⟩ => ?_
  have h := h₁.trans h₂
  have hopened : s.opened.Tracks ids (es.flatMap TypedExpr.nodes) s₂ := (State.Tracks.of_calm hcalm).trans htracks h₂.toFollows
  refine (closes_tracks h (hs.opened.later h.toFollows hs₂) hinferred hopened node (fun t ht => h₂.owns (hts t ht)) level
    (bindings.all fun b => b.2.isValue)).bind fun schemes s₃ _ hs₃ ⟨hschemes, htracks⟩ => keeps_get (keeps_pure hs₃ ?_)
  have hvalues : (((bindings.map Prod.fst).zip (es.zip schemes)).map fun x =>
      (⟨x.1, x.2.2, s₃.subst.applyExpr x.2.1⟩ : TypedBinding)).map TypedBinding.value = es.map s₃.subst.applyExpr := by
    have hzip : ((bindings.map Prod.fst).zip (es.zip schemes)).map (Prod.fst ∘ Prod.snd) = es := by
      rw [← List.map_map, List.map_snd_zip (by simp [hes, hschemes, hlength]), List.map_fst_zip (by simp [hes, hschemes, hlength])]
    conv_rhs => rw [← hzip]
    rw [List.map_map, List.map_map]
    rfl
  exact hvalues.symm ▸ htracks

end Boundaries

section Lets

theorem bound_ownsExpr {group : List TypedBinding} {sites : Sites} (h : s.Bound session sites group) :
    ∀ e ∈ group.map TypedBinding.value, s.OwnsExpr e :=
  List.forall_mem_map.mpr fun b hb => ⟨h.types b hb, h.effects b hb⟩

theorem builds_letIn (id : NodeId) (name : String) (value : Expr) {inferValue : InferM TypedExpr} {inferBody : Env → InferM TypedExpr}
    (hinfers : Infers session .anywhere env inferValue) (hvalue : TracksOne session env ids₁ inferValue)
    (hbody : ∀ env, TracksOne session env ids₂ (inferBody env)) :
    Builds session env (id :: (ids₁ ++ ids₂)) (letIn session env id name value inferValue inferBody) := by
  intro s hs
  simp only [letIn, within, bind_assoc, pure_bind]
  refine (Makes.start hs).alike ⟨rfl, rfl, rfl, rfl⟩ fun s₁ _ _ t => ?_
  have hbinding : Keeps (binding session env value .nested inferValue) s₁ fun b s' => s'.Bound session .anywhere [⟨name, b.1, b.2⟩] ∧
      (∀ e ∈ [b.2], s'.OwnsExpr e) ∧ s₁.Tracks ids₁ ([b.2].flatMap TypedExpr.nodes) s' := by
    refine (keeps_binding_tracks t.hosts hinfers hvalue value .nested).mono ?_
    rintro b s' - - ⟨⟨hbound, -⟩, htracks⟩
    rw [List.flatMap_singleton]
    exact ⟨hbound name, bound_ownsExpr (hbound name), htracks⟩
  refine t.step hbinding fun b s₂ _ hbound t => ?_
  refine t.alike ⟨rfl, rfl, rfl, rfl⟩ fun s₃ h₃ _ t => ?_
  have hinner : s₃.Hosts session (env.nest [(name, b.1)]) :=
    t.hosts.nest (List.forall_mem_singleton.mpr (h₃.ownsScheme (hbound.schemes _ (List.mem_singleton_self _))))
  refine t.part hinner (hbody _) fun body s₄ _ _ t => ?_
  exact t.idle (keeps_joinEffects t.hosts.ready id t.rows) (idles_joinEffects ..) fun _ _ _ _ t => t.done rfl

theorem builds_letRec (id : NodeId) (bindings : List Binding) {inferValues : Env → List Ty → InferM (List TypedExpr)}
    {inferBody : Env → InferM TypedExpr} (hinfers : InfersGroup session .anywhere env bindings inferValues)
    (hvalues : TracksValues session ids₁ bindings inferValues) (hbody : ∀ env, TracksOne session env ids₂ (inferBody env)) :
    Builds session env (id :: (ids₁ ++ ids₂)) (letRec session env id bindings inferValues inferBody) := by
  intro s hs
  simp only [letRec, within, bind_assoc, pure_bind]
  refine (Makes.start hs).alike ⟨rfl, rfl, rfl, rfl⟩ fun s₁ _ _ t => ?_
  have hgroup : Keeps (recGroup session env id bindings .nested inferValues) s₁ fun group s' => s'.Bound session .anywhere group ∧
      (∀ e ∈ group.map TypedBinding.value, s'.OwnsExpr e) ∧
        s₁.Tracks ids₁ ((group.map TypedBinding.value).flatMap TypedExpr.nodes) s' := by
    refine (keeps_recGroup_tracks t.hosts id bindings .nested hinfers hvalues).mono ?_
    rintro group s' - - ⟨⟨hbound, -⟩, htracks⟩
    exact ⟨hbound, bound_ownsExpr hbound, htracks⟩
  refine t.step hgroup fun group s₂ _ hbound t => ?_
  refine t.alike ⟨rfl, rfl, rfl, rfl⟩ fun s₃ h₃ _ t => ?_
  have hinner : s₃.Hosts session (env.nest (group.map fun b => (b.name, b.scheme))) :=
    t.hosts.nest (List.forall_mem_map.mpr fun b hb => h₃.ownsScheme (hbound.schemes b hb))
  refine t.part hinner (hbody _) fun body s₄ _ _ t => ?_
  have hrows : ∀ e ∈ group.map (fun b => b.value.effects) ++ [body.effects], s₄.OwnsEffects e := by
    have hrows := t.rows
    rw [List.nil_append, List.map_append, List.map_map] at hrows
    exact hrows
  exact t.idle (keeps_joinEffects t.hosts.ready id hrows) (idles_joinEffects ..) fun _ _ _ _ t => t.done rfl

end Lets

section Matches

def TracksArms (session : Session) (env : Env) (ids : List NodeId) (infer : Ty → Ty → InferM (List (TypedPattern × TypedExpr))) : Prop :=
  ∀ (scrutinee result : Ty) (s : State), s.Hosts session env → s.Owns scrutinee → s.Owns result →
    Keeps (infer scrutinee result) s fun arms s' => (∀ e ∈ arms.map Prod.snd, s'.Inferred session .anywhere e) ∧
      s.Tracks ids ((arms.map Prod.snd).flatMap TypedExpr.nodes) s'

theorem keeps_arm_tracks (hs : s.Hosts session env) {scrutinee result : Ty} (hscrutinee : s.Owns scrutinee) (hresult : s.Owns result)
    (index : Nat) (pattern : Pattern) {inferBody : Env → InferM TypedExpr} (hbody : ∀ env, TracksOne session env ids (inferBody env)) :
    Keeps (arm session env index scrutinee result pattern inferBody) s fun a s' =>
      (∀ e ∈ [a.2], s'.Inferred session .anywhere e) ∧ s.Tracks ids ([a.2].flatMap TypedExpr.nodes) s' := by
  simp only [arm, within, bind_assoc, pure_bind]
  refine (Makes.start hs).alike ⟨rfl, rfl, rfl, rfl⟩ fun s₁ h₁ _ t => ?_
  apply t.idle (keeps_inferPattern pattern t.hosts.ready t.hosts.supports (List.forall_mem_nil _)) (idles_inferPattern [] pattern)
  rintro x s₂ h₂ ⟨hp, hbound⟩ t
  refine t.idle (keeps_equate t.hosts.ready x.1.id .patternMatch ((h₁.trans h₂).owns hscrutinee) (hp x.1 x.1.mem_nodes_self).ty) (idles_equate ..) fun _ s₃ h₃ _ t => ?_
  have hinner : s₃.Hosts session (env.nest (x.2.mapValues Scheme.mono)) :=
    t.hosts.nest (List.forall_mem_map.mpr fun b hb => State.ownsScheme_mono (h₃.owns (hbound b hb)))
  refine t.part hinner (hbody _) fun body s₄ h₄ hbody t => ?_
  have hs₄ := t.hosts.ready
  have h := ((h₁.trans h₂).trans h₃).trans h₄
  refine t.idle (keeps_equate hs₄ body.id .matchArms (h.owns hresult) (t.owned body List.mem_cons_self).ty) (idles_equate ..)
    fun _ s₅ h₅ _ t => ?_
  exact t.alike ⟨rfl, rfl, rfl, rfl⟩ fun s₆ h₆ _ t => keeps_pure t.hosts.ready
    ⟨fun e he => (h₅.trans h₆).inferred hs₄ (hbody e he), t.tracks⟩

theorem builds_caseOf (id : NodeId) {inferScrutinee : InferM TypedExpr} {inferArms : Ty → Ty → InferM (List (TypedPattern × TypedExpr))}
    (hscrutinee : TracksOne session env ids₁ inferScrutinee) (harms : TracksArms session env ids₂ inferArms) :
    Builds session env (id :: (ids₁ ++ ids₂)) (caseOf id inferScrutinee inferArms) := by
  intro s hs
  simp only [caseOf, within, bind_assoc, pure_bind]
  refine (Makes.start hs).alike ⟨rfl, rfl, rfl, rfl⟩ fun s₁ _ _ t => ?_
  refine t.part t.hosts hscrutinee fun scrutinee s₂ _ _ t => ?_
  refine t.idle (keeps_freshType t.hosts.ready) idles_freshType fun result s₃ _ hresult t => ?_
  refine t.made (harms _ _ s₃ t.hosts (t.owned scrutinee List.mem_cons_self).ty hresult) fun arms s₄ _ _ t => ?_
  refine t.alike ⟨rfl, rfl, rfl, rfl⟩ fun s₅ _ _ t => ?_
  have hrows : ∀ e ∈ scrutinee.effects :: arms.map fun a => a.2.effects, s₅.OwnsEffects e :=
    List.forall_mem_cons.mpr ⟨(t.owned scrutinee List.mem_cons_self).effects, List.forall_mem_map.mpr fun a ha =>
      (t.owned a.2 (List.mem_cons_of_mem _ (List.mem_map_of_mem ha))).effects⟩
  exact t.idle (keeps_joinEffects t.hosts.ready id hrows) (idles_joinEffects ..) fun _ _ _ _ t => t.done rfl

end Matches

end InferM

open InferM

variable {session : Session}

theorem tracked_of_builds {env : Env} {e : Expr} {ids : List NodeId} (h : Builds session env ids (inferExpr session env e)) :
    TracksOne session env ids (inferExpr session env e) :=
  h.tracked (infers_inferExpr session e env fun _ _ _ => trivial)

mutual

theorem tracked_inferExpr : ∀ (e : Expr) (env : Env), TracksOne session env e.nodeIds (inferExpr session env e)
  | .lit id l, _ => tracked_of_builds ((builds_literal id l).noted _)
  | .var id name, _ => tracked_of_builds ((builds_variableUse id name).noted _)
  | .lambda id params body, _ => tracked_of_builds ((builds_function (.lambda id params body) params fun env =>
      tracked_inferExpr body env).noted _)
  | .app id func args, env => tracked_of_builds ((builds_application id func (tracked_inferExpr func env)
      (tracked_inferExprs args env).all).noted _)
  | .letIn id name value body, env => tracked_of_builds ((builds_letIn id name value
      (infers_inferExpr session value env fun _ _ _ => trivial) (tracked_inferExpr value env) fun env => tracked_inferExpr body env).noted _)
  | .letRec id bindings body, env => tracked_of_builds ((builds_letRec id bindings
      (fun bs _ => infers_inferValues session bindings (env.nest bs) fun _ _ _ _ _ => trivial) (tracked_inferValues bindings)
      fun env => tracked_inferExpr body env).noted _)
  | .cond id c t e, env => tracked_of_builds ((builds_cond id (tracked_inferExpr c env) (tracked_inferExpr t env)
      (tracked_inferExpr e env)).noted _)
  | .binary id op l r, env => tracked_of_builds ((builds_binary id op (tracked_inferExpr l env) (tracked_inferExpr r env)).noted _)
  | .unary id op e, env => tracked_of_builds ((builds_unary id op (tracked_inferExpr e env)).noted _)
  | .record id fs, env => tracked_of_builds ((builds_record id (tracked_inferFields fs env)).noted _)
  | .field id e name, env => tracked_of_builds ((builds_field id (tracked_inferExpr e env) name).noted _)
  | .update id e fs, env => tracked_of_builds ((builds_update id (tracked_inferExpr e env) (tracked_inferFields fs env)).noted _)
  | .list id es, env => tracked_of_builds ((builds_list id (tracked_inferExprs es env)).noted _)
  | .tuple id es, env => tracked_of_builds ((builds_tuple id (tracked_inferExprs es env).all).noted _)
  | .caseOf id e arms, env => tracked_of_builds ((builds_caseOf id (tracked_inferExpr e env) (tracked_inferArms arms env 0)).noted _)

theorem tracked_inferExprs : ∀ (es : List Expr) (env : Env),
    TracksElems session env (Expr.nodeIdsAll es) fun after => inferExprs session env after es
  | [], _ => fun _ _ hs _ => keeps_pure hs.ready ⟨List.forall_mem_nil _, (Makes.start hs).tracks⟩
  | e :: es, env => fun after s hs hafter => by
      refine (Makes.start hs).part hs (tracked_inferExpr e env) fun e s₁ h₁ he t => ?_
      have hs₁ := t.hosts.ready
      have hinferred := he e (List.mem_singleton_self e)
      refine t.idle ((hafter e).2 s₁ h₁ hs₁ hinferred) (hafter e).1 fun _ s₂ h₂ _ t => ?_
      refine t.made (tracked_inferExprs es env after s₂ t.hosts (hafter.later (h₁.trans h₂))) fun es s₃ h₃ hes t => ?_
      exact keeps_pure t.hosts.ready ⟨List.forall_mem_cons.mpr ⟨(h₂.trans h₃).inferred hs₁ hinferred, hes⟩, t.tracks⟩

theorem tracked_inferFields : ∀ (fs : List (String × Expr)) (env : Env),
    TracksFields session env (Expr.nodeIdsFields fs) fun after earlier => inferFields session env after earlier fs
  | [], _ => fun _ _ _ hs _ => keeps_pure hs.ready ⟨List.forall_mem_nil _, (Makes.start hs).tracks⟩
  | (name, e) :: fs, env => fun after earlier s hs hafter => by
      simp only [inferFields, within, bind_assoc, pure_bind]
      refine (Makes.start hs).alike ⟨rfl, rfl, rfl, rfl⟩ fun s₁ h₁ _ t => ?_
      refine t.part t.hosts (tracked_inferExpr e env) fun e s₂ h₂ he t => ?_
      have hs₂ := t.hosts.ready
      refine t.alike ⟨rfl, rfl, rfl, rfl⟩ fun s₃ h₃ _ t => ?_
      have hs₃ := t.hosts.ready
      have hinferred := h₃.inferred hs₂ (he e (List.mem_singleton_self e))
      have h := (h₁.trans h₂).trans h₃
      refine t.idle ((hafter earlier name e).2 s₃ h hs₃ hinferred) (hafter earlier name e).1 fun _ s₄ h₄ _ t => ?_
      refine t.made (tracked_inferFields fs env after (name :: earlier) s₄ t.hosts fun earlier name => (hafter earlier name).later
        (h.trans h₄)) fun fs s₅ h₅ hfs t => ?_
      exact keeps_pure t.hosts.ready ⟨List.forall_mem_cons.mpr ⟨(h₄.trans h₅).inferred hs₃ hinferred, hfs⟩, t.tracks⟩

theorem tracked_inferValues : ∀ bs : List Binding,
    TracksValues session (Expr.nodeIdsFields bs) bs fun env ts => inferValues session env ts bs
  | [], _, _, _, hs, _, _ => keeps_pure hs.ready ⟨⟨rfl, List.forall_mem_nil _⟩, (Makes.start hs).tracks⟩
  | (name, e) :: bs, env, ts, s, hs, hlength, hts => by
      obtain ⟨placeholder, ts, rfl⟩ := List.exists_cons_of_length_eq_add_one hlength
      rw [List.forall_mem_cons] at hts
      refine (Makes.start hs).part hs (tracked_inferExpr e env) fun e s₁ h₁ he t => ?_
      have hs₁ := t.hosts.ready
      have hinferred := he e (List.mem_singleton_self e)
      refine t.idle (keeps_equate hs₁ e.id .letRec (h₁.owns hts.1) hinferred.ty) (idles_equate ..) fun _ s₂ h₂ _ t => ?_
      have hrest := tracked_inferValues bs env ts s₂ t.hosts (by simpa using hlength) fun t ht => (h₁.trans h₂).owns (hts.2 t ht)
      refine t.step (hrest.mono fun es s₃ _ _ ⟨hes, htracks⟩ => ⟨hes, fun e he => (hes.2 e he).ownsExpr, htracks⟩)
        fun es s₃ h₃ ⟨hes, hall⟩ t => keeps_pure t.hosts.ready ⟨⟨congrArg Nat.succ hes, ?_⟩, t.tracks⟩
      exact List.forall_mem_cons.mpr ⟨(h₂.trans h₃).inferred hs₁ hinferred, hall⟩

theorem tracked_inferArms : ∀ (arms : List (Pattern × Expr)) (env : Env) (index : Nat),
    TracksArms session env (Expr.nodeIdsArms arms) fun scrutinee result => inferArms session env scrutinee result index arms
  | [], _, _ => fun _ _ _ hs _ _ => keeps_pure hs.ready ⟨List.forall_mem_nil _, (Makes.start hs).tracks⟩
  | (p, e) :: arms, env, index => fun scrutinee result s hs hscrutinee hresult => by
      refine (Makes.start hs).made (keeps_arm_tracks hs hscrutinee hresult index p fun env => tracked_inferExpr e env) fun a s₁ h₁ ha t => ?_
      have hs₁ := t.hosts.ready
      refine t.made (tracked_inferArms arms env (index + 1) scrutinee result s₁ t.hosts (h₁.owns hscrutinee) (h₁.owns hresult))
        fun arms s₂ h₂ harms t => ?_
      exact keeps_pure t.hosts.ready ⟨List.forall_mem_cons.mpr ⟨h₂.inferred hs₁ (ha _ List.mem_cons_self), harms⟩, t.tracks⟩

end

def Decl.nodeIds : Decl → List NodeId
  | .bind _ _ value => value.nodeIds
  | .bindRec _ bindings => Expr.nodeIdsFields bindings
  | .expr e => e.nodeIds

namespace InferM

open State

variable {s : State} {env : Env}

theorem ensures_declareAll (failed : Bool) (bs : List TypedBinding) (c : Context) :
    Ensures (Checker.declareAll failed bs) c fun bs' _ => bs'.map TypedBinding.value = bs.map TypedBinding.value := by
  induction bs generalizing c with
  | nil => exact rfl
  | cons b bs ih =>
      refine .bind (Q := fun _ _ => True) trivial fun _ c' _ => ?_
      refine (ih c').bind fun _ _ h => ?_
      exact congrArg (b.value :: ·) h

theorem keeps_checkDecl_tracks (hs : s.Hosts session env) (d : Decl) :
    Keeps (Checker.checkDecl session env d) s fun d' s' => s.Tracks d.nodeIds (d'.exprs.flatMap TypedExpr.nodes) s' := by
  apply keeps_get
  refine keeps_within_alike hs.ready fun s₁ h₁ hs₁ halike => ?_
  have hhosts := hs.later h₁.toFollows hs₁
  have hentered : s.Tracks [] [] s₁ := .of_calm (.of_eq halike.classes halike.resolved)
  have hend {ids : List NodeId} {ns : List TypedExpr} {s₂ : State} (hleads : s₁.Leads s₂) (htracks : s₁.Tracks ids ns s₂) (c : Context)
      (hc : s₂.context.Alike c) : s.Tracks ids ns ⟨c, s₂.layout⟩ :=
    (hentered.trans htracks hleads.toFollows).calm (.of_eq hc.classes hc.resolved) (State.Leads.alike hc).toFollows
  cases d with
  | bind id name value =>
      have hbinding := keeps_binding_tracks hhosts (infers_inferExpr session value env fun _ _ _ => trivial) (tracked_inferExpr value env)
        value .topLevel
      dsimp only [inferBinding]
      refine hbinding.bind fun b s₂ h₂ hs₂ ⟨⟨hbound, _⟩, htracks⟩ => keeps_get ?_
      have hdeclare := (keeps_declare hs₂ (decide (s.context.errors.length < s₂.context.errors.length)) (fun h herrors => by simp [herrors] at h)
        name ((hbound "").schemes _ (List.mem_singleton_self _))).and_ensures ((idles_declare ..).calm _)
      refine hdeclare.bind fun scheme s₃ h₃ hs₃ ⟨_, hcalm⟩ => keeps_pure hs₃ (hend (h₂.trans h₃) ?_)
      change s₁.Tracks value.nodeIds ([b.2].flatMap TypedExpr.nodes) s₃
      rw [List.flatMap_singleton]
      exact htracks.calm hcalm h₃.toFollows
  | bindRec id bindings =>
      have hinfers : InfersGroup session .anywhere env bindings fun env ts => inferValues session env ts bindings :=
        fun bs _ => infers_inferValues session bindings (env.nest bs) fun _ _ _ _ _ => trivial
      have hgroup := keeps_recGroup_tracks hhosts id bindings .topLevel hinfers (tracked_inferValues bindings)
      dsimp only [inferRecGroup]
      refine hgroup.bind fun group s₂ h₂ hs₂ ⟨⟨hbound, _⟩, htracks⟩ => keeps_get ?_
      have hdeclare := ((keeps_declareAll hs₂ (decide (s.context.errors.length < s₂.context.errors.length))
        (fun h herrors => by simp [herrors] at h) hbound.schemes).and_ensures ((idles_declareAll ..).calm _)).and_ensures
          (ensures_declareAll ..)
      refine hdeclare.bind fun group' s₃ h₃ hs₃ ⟨⟨_, hcalm⟩, hvalues⟩ => keeps_pure hs₃ (hend (h₂.trans h₃) ?_)
      change s₁.Tracks (Expr.nodeIdsFields bindings) ((group'.map TypedBinding.value).flatMap TypedExpr.nodes) s₃
      rw [hvalues]
      exact htracks.calm hcalm h₃.toFollows
  | expr e =>
      have htopLevel := keeps_topLevel_tracks hhosts (infers_inferExpr session e env fun _ _ _ => trivial) (tracked_inferExpr e env) e
      dsimp only [inferTopLevel]
      refine htopLevel.bind fun typed s₂ h₂ hs₂ ⟨_, htracks⟩ => keeps_pure hs₂ (hend h₂ ?_)
      change s₁.Tracks e.nodeIds ([typed].flatMap TypedExpr.nodes) s₂
      rwa [List.flatMap_singleton]

theorem keeps_checkDecls_tracks (hs : s.Hosts session env) (ds : List Decl) :
    Keeps (Checker.checkDecls session env ds) s fun ds' s' =>
      s.Tracks (ds.flatMap Decl.nodeIds) ((ds'.flatMap TypedDecl.exprs).flatMap TypedExpr.nodes) s' := by
  induction ds generalizing s env with
  | nil => exact keeps_pure hs.ready (.of_calm (.refl _))
  | cons d ds ih =>
      have hdecl := (keeps_checkDecl (fun _ _ => trivial) hs.ready hs.owned hs.supports d).and hs.plain (keeps_checkDecl_tracks hs d)
      refine hdecl.bind fun d' s₁ h₁ hs₁ ⟨⟨hdeclares, _⟩, htracks⟩ => ?_
      have hlater := hs.later h₁.toFollows hs₁
      have hinner : s₁.Hosts session (env.bindAll (Checker.boundSchemes d')) :=
        ⟨hs₁, hdeclares.ownsEnv hlater.owned, hlater.supports, hlater.plain⟩
      refine (ih hinner).bind fun ds' s₂ h₂ hs₂ htracks' => keeps_pure hs₂ ?_
      rw [List.flatMap_cons, List.flatMap_cons, List.flatMap_append]
      exact htracks.trans htracks' h₂.toFollows

end InferM

end RowTyping
