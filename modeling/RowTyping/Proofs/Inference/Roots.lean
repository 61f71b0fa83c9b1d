import RowTyping.Proofs.Inference.Parts

namespace RowTyping

namespace InferM

open State

variable {α : Type} {P : State → TypedExpr → Prop} {s s₁ : State} {session : Session} {env : Env} {id : NodeId} {level : BindingLevel}

section Boundaries

variable (hP : Lasting P)

include hP

theorem closes_pervaded (h₁ : s.opened.Leads s₁) (hs₁ : s₁.Hosts session env) {es : List TypedExpr} (hes : ∀ e ∈ es, s₁.Pervaded P e)
    (node : NodeId) {ts : List Ty} (hts : ∀ t ∈ ts, s₁.Owns t) (level : BindingLevel) (generalizable : Bool) :
    Closes (closeBoundary session env node ts level generalizable) s s₁ fun schemes s' => schemes.length = ts.length ∧
      (∀ scheme ∈ schemes, s'.OwnsScheme scheme) ∧ ∀ e ∈ es, s'.Pervaded P (s'.subst.applyExpr e) := by
  have hclosed := closes_closeBoundary h₁ hs₁.ready hs₁.supports env node hts level generalizable
  rw [← bind_pure (closeBoundary session env node ts level generalizable)]
  refine hclosed.bind fun schemes s₂ _ hs₂ hclosed => keeps_pure hs₂ ⟨hclosed.length, hclosed.owned, fun e he => ?_⟩
  exact ((hes e he).later hP hclosed.follows).applied hP hs₂

theorem keeps_binding_pervaded (hs : s.Hosts session env) {infer : InferM TypedExpr} (hm : SpreadsOne P session env infer) (value : Expr)
    (level : BindingLevel) : Keeps (binding session env value level infer) s fun b s' =>
      s'.OwnsScheme b.1 ∧ ∀ e ∈ [b.2], s'.Pervaded P e := by
  refine keeps_boundary ((hm s.opened hs.opened).closes fun e s₁ h₁ hs₁ he => ?_)
  have hty := List.forall_mem_singleton.mpr (he e (List.mem_singleton_self e)).ty
  refine (closes_pervaded hP h₁ (hs.opened.later h₁.toFollows hs₁) (fun e' he' => (he e' he').pervaded) value.id hty level
    value.isValue).bind fun schemes s₂ _ hs₂ ⟨hlength, hschemes, hvalues⟩ => keeps_get (keeps_pure hs₂ ?_)
  obtain ⟨scheme, rfl⟩ := List.length_eq_one_iff.mp hlength
  exact ⟨hschemes scheme (List.mem_singleton_self _), List.forall_mem_singleton.mpr (hvalues e (List.mem_singleton_self e))⟩

theorem keeps_topLevel_pervaded (hs : s.Hosts session env) {infer : InferM TypedExpr} (hm : SpreadsOne P session env infer) (e : Expr) :
    Keeps (topLevel session env e infer) s fun e s' => s'.Pervaded P e := by
  refine keeps_boundary ((hm s.opened hs.opened).closes fun typed s₁ h₁ hs₁ he => ?_)
  have hty := List.forall_mem_singleton.mpr (he typed (List.mem_singleton_self typed)).ty
  refine (closes_pervaded hP h₁ (hs.opened.later h₁.toFollows hs₁) (fun e' he' => (he e' he').pervaded) e.id hty .topLevel
    false).bind fun _ s₂ _ hs₂ ⟨_, _, hvalues⟩ => keeps_get (keeps_pure hs₂ ?_)
  exact hvalues typed (List.mem_singleton_self typed)

omit hP

def SpreadsValues (P : State → TypedExpr → Prop) (session : Session) (env : Env) (bindings : List Binding)
    (infer : List Ty → InferM (List TypedExpr)) : Prop :=
  ∀ (ts : List Ty) (s : State), s.Hosts session env → ts.length = bindings.length → (∀ t ∈ ts, s.Owns t) →
    Keeps (infer ts) s fun es s' => es.length = bindings.length ∧ ∀ e ∈ es, s'.Grown session P e

def SpreadsGroup (P : State → TypedExpr → Prop) (session : Session) (env : Env) (bindings : List Binding)
    (infer : Env → List Ty → InferM (List TypedExpr)) : Prop :=
  ∀ bs : List (String × Scheme), (∀ x ∈ bindings.map Prod.fst, x ∈ bs.map Prod.fst) →
    SpreadsValues P session (env.nest bs) bindings (infer (env.nest bs))

include hP

theorem keeps_recGroup_pervaded (hs : s.Hosts session env) (node : NodeId) (bindings : List Binding) (level : BindingLevel)
    {infer : Env → List Ty → InferM (List TypedExpr)} (hm : SpreadsGroup P session env bindings infer) :
    Keeps (recGroup session env node bindings level infer) s fun group s' => (group.map TypedBinding.name = bindings.map Prod.fst ∧
      ∀ b ∈ group, s'.OwnsScheme b.scheme) ∧ ∀ e ∈ group.map TypedBinding.value, s'.Pervaded P e := by
  refine keeps_boundary ((keeps_freshTypes hs.opened.ready bindings).closes fun ts s₁ h₁ hs₁ ⟨hlength, hts⟩ => ?_)
  have hinner : s₁.Hosts session (env.nest ((bindings.map Prod.fst).zip (ts.map Scheme.mono))) :=
    (hs.opened.later h₁.toFollows hs₁).nest fun b hb => by
      obtain ⟨t, ht, heq⟩ := List.mem_map.mp (List.of_mem_zip hb).2
      exact heq ▸ State.ownsScheme_mono (hts t ht)
  have hnames : ∀ x ∈ bindings.map Prod.fst, x ∈ ((bindings.map Prod.fst).zip (ts.map Scheme.mono)).map Prod.fst := by
    rw [List.map_fst_zip (by simp [hlength])]
    exact fun _ hx => hx
  refine (hm _ hnames ts s₁ hinner hlength hts).closes fun es s₂ h₂ hs₂ ⟨hes, hgrown⟩ => ?_
  have h := h₁.trans h₂
  refine (closes_pervaded hP h (hs.opened.later h.toFollows hs₂) (fun e he => (hgrown e he).pervaded) node
    (fun t ht => h₂.owns (hts t ht)) level (bindings.all fun b => b.2.isValue)).bind
      fun schemes s₃ _ hs₃ ⟨hschemes, howned, hvalues⟩ => keeps_get (keeps_pure hs₃ ⟨⟨?_, ?_⟩, ?_⟩)
  · rw [List.map_map]
    exact List.map_fst_zip (by simp [hes, hschemes, hlength])
  · exact List.forall_mem_map.mpr fun x hx => howned _ (List.of_mem_zip (List.of_mem_zip hx).2).2
  · exact List.forall_mem_map.mpr (List.forall_mem_map.mpr fun x hx => hvalues _ (List.of_mem_zip (List.of_mem_zip hx).2).1)

end Boundaries

section Lets

variable (hP : Lasting P)

include hP

theorem below_letIn (id : NodeId) (name : String) (value : Expr) {inferValue : InferM TypedExpr} {inferBody : Env → InferM TypedExpr}
    (hvalue : SpreadsOne P session env inferValue) (hbody : SpreadsUnder P session env [name] inferBody) :
    SpreadsBelow P session env (letIn session env id name value inferValue inferBody) := by
  intro s hs
  simp only [letIn, within, bind_assoc, pure_bind]
  refine (Along.start hs).next hP (keeps_alike hs.ready ⟨rfl, rfl, rfl, rfl⟩) fun _ s₁ _ _ t => ?_
  refine t.made hP (keeps_binding_pervaded hP t.hosts hvalue value .nested) fun b s₂ _ hscheme t => ?_
  refine t.next hP (keeps_alike t.hosts.ready ⟨rfl, rfl, rfl, rfl⟩) fun _ s₃ h₃ _ t => ?_
  have hinner : s₃.Hosts session (env.nest [(name, b.1)]) := t.hosts.nest (List.forall_mem_singleton.mpr (h₃.ownsScheme hscheme))
  refine t.part hP hinner (hbody _ fun _ hx => hx) fun body s₄ _ t => ?_
  exact t.next hP (keeps_joinEffects t.hosts.ready id t.effects) fun _ _ _ _ t => t.done

theorem below_letRec (id : NodeId) (bindings : List Binding) {inferValues : Env → List Ty → InferM (List TypedExpr)}
    {inferBody : Env → InferM TypedExpr} (hvalues : SpreadsGroup P session env bindings inferValues)
    (hbody : SpreadsUnder P session env (bindings.map Prod.fst) inferBody) :
    SpreadsBelow P session env (letRec session env id bindings inferValues inferBody) := by
  intro s hs
  simp only [letRec, within, bind_assoc, pure_bind]
  refine (Along.start hs).next hP (keeps_alike hs.ready ⟨rfl, rfl, rfl, rfl⟩) fun _ s₁ _ _ t => ?_
  refine t.made hP (keeps_recGroup_pervaded hP t.hosts id bindings .nested hvalues) fun group s₂ _ hgroup t => ?_
  obtain ⟨hnames, hschemes⟩ := hgroup
  refine t.next hP (keeps_alike t.hosts.ready ⟨rfl, rfl, rfl, rfl⟩) fun _ s₃ h₃ _ t => ?_
  have hnested : (group.map fun b => (b.name, b.scheme)).map Prod.fst = bindings.map Prod.fst := (List.map_map ..).trans hnames
  have hinner : s₃.Hosts session (env.nest (group.map fun b => (b.name, b.scheme))) :=
    t.hosts.nest (List.forall_mem_map.mpr fun b hb => h₃.ownsScheme (hschemes b hb))
  refine t.part hP hinner (hbody _ fun x hx => hnested ▸ hx) fun body s₄ _ t => ?_
  have hrows : ∀ e ∈ group.map (fun b => b.value.effects) ++ [body.effects], s₄.OwnsEffects e := by
    have hrows := t.effects
    rw [List.nil_append, List.map_append, List.map_map] at hrows
    exact hrows
  exact t.next hP (keeps_joinEffects t.hosts.ready id hrows) fun _ _ _ _ t => t.done

end Lets

section Matches

def SpreadsArms (P : State → TypedExpr → Prop) (session : Session) (env : Env)
    (infer : Ty → Ty → InferM (List (TypedPattern × TypedExpr))) : Prop :=
  ∀ (scrutinee result : Ty) (s : State), s.Hosts session env → s.Owns scrutinee → s.Owns result →
    Keeps (infer scrutinee result) s fun arms s' => ∀ e ∈ arms.map Prod.snd, s'.Grown session P e

variable (hP : Lasting P)

include hP

theorem keeps_arm_spreads (hs : s.Hosts session env) {scrutinee result : Ty} (hscrutinee : s.Owns scrutinee) (hresult : s.Owns result)
    (index : Nat) (pattern : Pattern) {inferBody : Env → InferM TypedExpr} (hbody : SpreadsUnder P session env pattern.boundNames inferBody) :
    Keeps (arm session env index scrutinee result pattern inferBody) s fun a s' => s'.Grown session P a.2 := by
  simp only [arm, within, bind_assoc, pure_bind]
  refine (Along.start hs).next hP (keeps_alike hs.ready ⟨rfl, rfl, rfl, rfl⟩) fun _ s₁ h₁ _ t => ?_
  have hpattern := (keeps_inferPattern pattern t.hosts.ready t.hosts.supports (List.forall_mem_nil _)).and_ensures
    (ensures_inferPattern session pattern [] s₁.context)
  refine t.next hP hpattern fun x s₂ h₂ hx t => ?_
  obtain ⟨⟨hp, hbound⟩, hadds⟩ := hx
  refine t.next hP (keeps_equate t.hosts.ready x.1.id .patternMatch ((h₁.trans h₂).owns hscrutinee) (hp x.1 x.1.mem_nodes_self).ty) fun _ s₃ h₃ _ t => ?_
  have hinner : s₃.Hosts session (env.nest (x.2.mapValues Scheme.mono)) :=
    t.hosts.nest (List.forall_mem_map.mpr fun b hb => State.ownsScheme_mono (h₃.owns (hbound b hb)))
  have hnames : ∀ name ∈ pattern.boundNames, name ∈ (x.2.mapValues Scheme.mono).keys := fun name hname => by
    rw [OrderedMap.keys_mapValues]
    exact (hadds name).mpr (.inr hname)
  refine t.some hP (hbody _ hnames s₃ hinner) fun body s₄ h₄ hgrown t => ?_
  have hs₄ := t.hosts.ready
  have h := ((h₁.trans h₂).trans h₃).trans h₄
  refine t.next hP (keeps_equate hs₄ body.id .matchArms (h.owns hresult) (t.parts body List.mem_cons_self).ty) fun _ s₅ h₅ _ t => ?_
  refine t.next hP (keeps_alike t.hosts.ready ⟨rfl, rfl, rfl, rfl⟩) fun _ s₆ h₆ _ t => keeps_pure t.hosts.ready ?_
  exact (hgrown body (List.mem_singleton_self _)).later hP hs₄ (h₅.trans h₆)

theorem below_caseOf (id : NodeId) {inferScrutinee : InferM TypedExpr} {inferArms : Ty → Ty → InferM (List (TypedPattern × TypedExpr))}
    (hscrutinee : SpreadsOne P session env inferScrutinee) (harms : SpreadsArms P session env inferArms) :
    SpreadsBelow P session env (caseOf id inferScrutinee inferArms) := by
  intro s hs
  simp only [caseOf, within, bind_assoc, pure_bind]
  refine (Along.start hs).next hP (keeps_alike hs.ready ⟨rfl, rfl, rfl, rfl⟩) fun _ s₁ _ _ t => ?_
  refine t.part hP t.hosts hscrutinee fun scrutinee s₂ _ t => ?_
  refine t.next hP (keeps_freshType t.hosts.ready) fun result s₃ _ hresult t => ?_
  refine t.some hP (harms _ _ s₃ t.hosts (t.parts scrutinee List.mem_cons_self).ty hresult) fun arms s₄ _ _ t => ?_
  refine t.next hP (keeps_alike t.hosts.ready ⟨rfl, rfl, rfl, rfl⟩) fun _ s₅ _ _ t => ?_
  have hrows : ∀ e ∈ scrutinee.effects :: arms.map fun a => a.2.effects, s₅.OwnsEffects e :=
    List.forall_mem_cons.mpr ⟨(t.parts scrutinee List.mem_cons_self).effects, List.forall_mem_map.mpr fun a ha =>
      (t.parts a.2 (List.mem_cons_of_mem _ (List.mem_map_of_mem ha))).effects⟩
  exact t.next hP (keeps_joinEffects t.hosts.ready id hrows) fun _ _ _ _ t => t.done

end Matches

end InferM

open InferM

structure Rooted (P : State → TypedExpr → Prop) (session : Session) (sites : Sites) : Prop extends State.Lasting P where
  roots : ∀ env e, sites env e → ∀ s : State, s.Hosts session env → InferM.Keeps (inferExpr session env e) s fun n s' => P s' n

variable {P : State → TypedExpr → Prop} {session : Session} {sites : Sites}

theorem Rooted.spreads (hP : Rooted P session sites) {env : Env} {e : Expr} (hsite : sites env e)
    (h : SpreadsBelow P session env (inferExpr session env e)) : SpreadsOne P session env (inferExpr session env e) := by
  intro s hs
  have hinfers : Infers session .anywhere env (inferExpr session env e) := infers_inferExpr session e env fun _ _ _ => trivial
  refine (((hinfers s hs.ready hs.owned hs.supports).and hs.plain (hP.roots env e hsite s hs)).and hs.plain (h s hs)).mono fun n s' _ _ ⟨⟨hn, hself⟩, hchildren⟩ => ?_
  refine List.forall_mem_singleton.mpr ⟨hn, fun m hm => ?_⟩
  rcases TypedExpr.mem_nodes_iff.mp hm with rfl | ⟨c, hc, hm⟩
  · exact hself
  · exact (hchildren c hc).nodes m hm

variable (hP : Rooted P session sites)

include hP

mutual

theorem spreads_inferExpr : ∀ (e : Expr) (env : Env), (∀ env' e', Scoped env e env' e' → sites env' e') →
    SpreadsOne P session env (inferExpr session env e)
  | .lit id l, _, hsites => hP.spreads (hsites _ _ .here) ((below_literal hP.toLasting id l).noted hP.toLasting _)
  | .var id name, _, hsites => hP.spreads (hsites _ _ .here) ((below_variableUse hP.toLasting id name).noted hP.toLasting _)
  | .lambda id params body, env, hsites => hP.spreads (hsites _ _ .here) ((below_function hP.toLasting (.lambda id params body) fun bs hbs =>
      spreads_inferExpr body (env.nest bs) fun _ _ h => hsites _ _ (.scope List.mem_cons_self hbs h)).noted hP.toLasting _)
  | .app id func args, env, hsites => hP.spreads (hsites _ _ .here) ((below_application hP.toLasting id func
      (spreads_inferExpr func env fun _ _ h => hsites _ _ (.part List.mem_cons_self h))
      (spreads_inferExprs args env fun _ he _ _ h => hsites _ _ (.part (List.mem_cons_of_mem _ he) h)).all).noted hP.toLasting _)
  | .letIn id name value body, env, hsites => hP.spreads (hsites _ _ .here) ((below_letIn hP.toLasting id name value
      (spreads_inferExpr value env fun _ _ h => hsites _ _ (.part List.mem_cons_self h)) fun bs hbs =>
        spreads_inferExpr body (env.nest bs) fun _ _ h => hsites _ _ (.scope List.mem_cons_self hbs h)).noted hP.toLasting _)
  | .letRec id bindings body, env, hsites => hP.spreads (hsites _ _ .here) ((below_letRec hP.toLasting id bindings
      (fun bs hbs => spreads_inferValues bindings (env.nest bs) fun b hb _ _ h => hsites _ _ (.scope (List.mem_map_of_mem
        (List.mem_cons_of_mem _ (List.mem_map_of_mem hb))) hbs h)) fun bs hbs =>
          spreads_inferExpr body (env.nest bs) fun _ _ h => hsites _ _ (.scope List.mem_cons_self hbs h)).noted hP.toLasting _)
  | .cond id c t e, env, hsites => hP.spreads (hsites _ _ .here) ((below_cond hP.toLasting id
      (spreads_inferExpr c env fun _ _ h => hsites _ _ (.part (by simp [Expr.parts]) h))
      (spreads_inferExpr t env fun _ _ h => hsites _ _ (.part (by simp [Expr.parts]) h))
      (spreads_inferExpr e env fun _ _ h => hsites _ _ (.part (by simp [Expr.parts]) h))).noted hP.toLasting _)
  | .binary id op l r, env, hsites => hP.spreads (hsites _ _ .here) ((below_binary hP.toLasting id op
      (spreads_inferExpr l env fun _ _ h => hsites _ _ (.part (by simp [Expr.parts]) h))
      (spreads_inferExpr r env fun _ _ h => hsites _ _ (.part (by simp [Expr.parts]) h))).noted hP.toLasting _)
  | .unary id op e, env, hsites => hP.spreads (hsites _ _ .here) ((below_unary hP.toLasting id op
      (spreads_inferExpr e env fun _ _ h => hsites _ _ (.part List.mem_cons_self h))).noted hP.toLasting _)
  | .record id fs, env, hsites => hP.spreads (hsites _ _ .here) ((below_record hP.toLasting id
      (spreads_inferFields fs env fun _ hf _ _ h => hsites _ _ (.part (List.mem_map_of_mem hf) h))).noted hP.toLasting _)
  | .field id e name, env, hsites => hP.spreads (hsites _ _ .here) ((below_field hP.toLasting id
      (spreads_inferExpr e env fun _ _ h => hsites _ _ (.part List.mem_cons_self h)) name).noted hP.toLasting _)
  | .update id e fs, env, hsites => hP.spreads (hsites _ _ .here) ((below_update hP.toLasting id
      (spreads_inferExpr e env fun _ _ h => hsites _ _ (.part List.mem_cons_self h))
      (spreads_inferFields fs env fun _ hf _ _ h => hsites _ _ (.part (List.mem_cons_of_mem _ (List.mem_map_of_mem hf)) h))).noted hP.toLasting _)
  | .list id es, env, hsites => hP.spreads (hsites _ _ .here) ((below_list hP.toLasting id
      (spreads_inferExprs es env fun _ he _ _ h => hsites _ _ (.part he h))).noted hP.toLasting _)
  | .tuple id es, env, hsites => hP.spreads (hsites _ _ .here) ((below_tuple hP.toLasting id
      (spreads_inferExprs es env fun _ he _ _ h => hsites _ _ (.part he h)).all).noted hP.toLasting _)
  | .caseOf id e arms, env, hsites => hP.spreads (hsites _ _ .here) ((below_caseOf hP.toLasting id
      (spreads_inferExpr e env fun _ _ h => hsites _ _ (.part List.mem_cons_self h))
      (spreads_inferArms arms env 0 fun _ harm _ hbs _ _ h => hsites _ _ (.scope (List.mem_map_of_mem harm) hbs h))).noted hP.toLasting _)

theorem spreads_inferExprs : ∀ (es : List Expr) (env : Env), (∀ e ∈ es, ∀ env' e', Scoped env e env' e' → sites env' e') →
    SpreadsElems P session env fun after => inferExprs session env after es
  | [], _, _ => fun _ _ hs _ => keeps_pure hs.ready (List.forall_mem_nil _)
  | e :: es, env, hsites => fun after s hs hafter => by
      rw [List.forall_mem_cons] at hsites
      refine (Along.start hs).some hP.toLasting (spreads_inferExpr e env hsites.1 s hs) fun e s₁ h₁ he t => ?_
      have hs₁ := t.hosts.ready
      have hgrown := he e (List.mem_singleton_self e)
      refine t.next hP.toLasting ((hafter e).2 s₁ h₁ hs₁ hgrown.toInferred) fun _ s₂ h₂ _ t => ?_
      refine t.next hP.toLasting (spreads_inferExprs es env hsites.2 after s₂ t.hosts (hafter.later (h₁.trans h₂))) fun es s₃ h₃ hes t => ?_
      exact keeps_pure t.hosts.ready (List.forall_mem_cons.mpr ⟨hgrown.later hP.toLasting hs₁ (h₂.trans h₃), hes⟩)

theorem spreads_inferFields : ∀ (fs : List (String × Expr)) (env : Env), (∀ f ∈ fs, ∀ env' e', Scoped env f.2 env' e' → sites env' e') →
    SpreadsFields P session env fun after earlier => inferFields session env after earlier fs
  | [], _, _ => fun _ _ _ hs _ => keeps_pure hs.ready (List.forall_mem_nil _)
  | (name, e) :: fs, env, hsites => fun after earlier s hs hafter => by
      rw [List.forall_mem_cons] at hsites
      simp only [inferFields, within, bind_assoc, pure_bind]
      refine (Along.start hs).next hP.toLasting (keeps_alike hs.ready ⟨rfl, rfl, rfl, rfl⟩) fun _ s₁ h₁ _ t => ?_
      refine t.some hP.toLasting (spreads_inferExpr e env hsites.1 s₁ t.hosts) fun e s₂ h₂ he t => ?_
      have hs₂ := t.hosts.ready
      refine t.next hP.toLasting (keeps_alike t.hosts.ready ⟨rfl, rfl, rfl, rfl⟩) fun _ s₃ h₃ _ t => ?_
      have hs₃ := t.hosts.ready
      have hgrown := (he e (List.mem_singleton_self e)).later hP.toLasting hs₂ h₃
      have h := (h₁.trans h₂).trans h₃
      refine t.next hP.toLasting ((hafter earlier name e).2 s₃ h hs₃ hgrown.toInferred) fun _ s₄ h₄ _ t => ?_
      refine t.next hP.toLasting (spreads_inferFields fs env hsites.2 after (name :: earlier) s₄ t.hosts fun earlier name =>
        (hafter earlier name).later (h.trans h₄)) fun fs s₅ h₅ hfs t => ?_
      exact keeps_pure t.hosts.ready (List.forall_mem_cons.mpr ⟨hgrown.later hP.toLasting hs₃ (h₄.trans h₅), hfs⟩)

theorem spreads_inferValues : ∀ (bs : List Binding) (env : Env), (∀ b ∈ bs, ∀ env' e', Scoped env b.2 env' e' → sites env' e') →
    SpreadsValues P session env bs fun ts => inferValues session env ts bs
  | [], _, _, _, _, hs, _, _ => keeps_pure hs.ready ⟨rfl, List.forall_mem_nil _⟩
  | (name, e) :: bs, env, hsites, ts, s, hs, hlength, hts => by
      obtain ⟨placeholder, ts, rfl⟩ := List.exists_cons_of_length_eq_add_one hlength
      rw [List.forall_mem_cons] at hts hsites
      refine (Along.start hs).some hP.toLasting (spreads_inferExpr e env hsites.1 s hs) fun e s₁ h₁ he t => ?_
      have hs₁ := t.hosts.ready
      have hgrown := he e (List.mem_singleton_self e)
      refine t.next hP.toLasting (keeps_equate hs₁ e.id .letRec (h₁.owns hts.1) hgrown.ty) fun _ s₂ h₂ _ t => ?_
      refine t.next hP.toLasting (spreads_inferValues bs env hsites.2 ts s₂ t.hosts (by simpa using hlength) fun t ht =>
        (h₁.trans h₂).owns (hts.2 t ht)) fun es s₃ h₃ hmade t => ?_
      obtain ⟨hes, hall⟩ := hmade
      refine keeps_pure t.hosts.ready ⟨congrArg Nat.succ hes, ?_⟩
      exact List.forall_mem_cons.mpr ⟨hgrown.later hP.toLasting hs₁ (h₂.trans h₃), hall⟩

theorem spreads_inferArms : ∀ (arms : List (Pattern × Expr)) (env : Env) (index : Nat),
    (∀ arm ∈ arms, ∀ bs : List (String × Scheme), (∀ x ∈ arm.1.boundNames, x ∈ bs.map Prod.fst) →
      ∀ env' e', Scoped (env.nest bs) arm.2 env' e' → sites env' e') →
    SpreadsArms P session env fun scrutinee result => inferArms session env scrutinee result index arms
  | [], _, _, _ => fun _ _ _ hs _ _ => keeps_pure hs.ready (List.forall_mem_nil _)
  | (p, e) :: arms, env, index, hsites => fun scrutinee result s hs hscrutinee hresult => by
      rw [List.forall_mem_cons] at hsites
      refine (keeps_arm_spreads hP.toLasting hs hscrutinee hresult index p fun bs hbs => spreads_inferExpr e (env.nest bs)
        (hsites.1 bs hbs)).bind fun a s₁ h₁ hs₁ hgrown => ?_
      refine (spreads_inferArms arms env (index + 1) hsites.2 scrutinee result s₁ (hs.later h₁.toFollows hs₁) (h₁.owns hscrutinee)
        (h₁.owns hresult)).bind fun arms s₂ h₂ hs₂ harms => keeps_pure hs₂ ?_
      exact List.forall_mem_cons.mpr ⟨hgrown.later hP.toLasting hs₁ h₂, harms⟩

end

end RowTyping
