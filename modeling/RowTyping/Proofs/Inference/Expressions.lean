import RowTyping.Infer.Expr
import RowTyping.Proofs.Inference.Collections

namespace RowTyping

namespace InferM

variable {session : Session} {sites : Sites} {env : Env}

section Matches

structure Arm (session : Session) (sites : Sites) (s : State) (scrutinee result : Ty) (arm : TypedPattern × TypedExpr) : Prop where
  patterns : ∀ p ∈ arm.1.nodes, s.PatternTyped session p
  body : s.Inferred session sites arm.2
  matched : s.Same scrutinee arm.1.ty
  result : s.Same result arm.2.ty

theorem Arm.of_leads {s s' : State} {scrutinee result : Ty} {arm : TypedPattern × TypedExpr} (h : Arm session sites s scrutinee result arm)
    (hs : s.Ready) (hleads : s.Leads s') : Arm session sites s' scrutinee result arm :=
  ⟨fun p hp => hleads.patternTyped (h.patterns p hp), hleads.inferred hs h.body, hleads.same h.matched, hleads.same h.result⟩

def InfersArms (session : Session) (sites : Sites) (env : Env) (infer : Ty → Ty → InferM (List (TypedPattern × TypedExpr))) : Prop :=
  ∀ scrutinee result (s : State), s.Ready → s.OwnsEnv env → s.Supports session → s.Owns scrutinee → s.Owns result →
    Keeps (infer scrutinee result) s fun arms s' => ∀ arm ∈ arms, Arm session sites s' scrutinee result arm

theorem keeps_arm {s : State} (hs : s.Ready) (henv : s.OwnsEnv env) (hsupports : s.Supports session) {scrutinee result : Ty}
    (hscrutinee : s.Owns scrutinee) (hresult : s.Owns result) (index : Nat) (pattern : Pattern) {inferBody : Env → InferM TypedExpr}
    (hbody : InfersUnder session sites env pattern.boundNames inferBody) :
    Keeps (arm session env index scrutinee result pattern inferBody) s fun a s' => Arm session sites s' scrutinee result a := by
  refine keeps_within hs fun s₁ h₁ hs₁ => ?_
  have hpattern := (keeps_inferPattern pattern hs₁ (h₁.supports hsupports) (List.forall_mem_nil _)).and_ensures
    (ensures_inferPattern session pattern [] s₁.context)
  refine hpattern.bind fun x s₂ h₂ hs₂ ⟨⟨hp, hbound⟩, hadds⟩ => ?_
  have hself := (hp x.1 x.1.mem_nodes_self).ty
  refine (keeps_equate hs₂ x.1.id .patternMatch ((h₁.trans h₂).owns hscrutinee) hself).bind fun _ s₃ h₃ hs₃ hmatched => ?_
  have h := (h₁.trans h₂).trans h₃
  have hinner : s₃.OwnsEnv (env.nest (x.2.mapValues Scheme.mono)) :=
    (h.ownsEnv henv).nest (List.forall_mem_map.mpr fun b hb => State.ownsScheme_mono (h₃.owns (hbound b hb)))
  have hnames : ∀ name ∈ pattern.boundNames, name ∈ (x.2.mapValues Scheme.mono).keys := fun name hname => by
    rw [OrderedMap.keys_mapValues]
    exact (hadds name).mpr (.inr hname)
  refine (hbody _ hnames s₃ hs₃ hinner (h.supports hsupports)).bind fun body s₄ h₄ hs₄ hbody => ?_
  refine (keeps_equate hs₄ body.id .matchArms ((h.trans h₄).owns hresult) hbody.ty).bind fun _ s₅ h₅ hs₅ hsame => ?_
  refine keeps_pure hs₅ fun s₆ h₆ _ => ?_
  have h' := h₅.trans h₆
  exact ⟨fun p hmem => ((h₃.trans h₄).trans h').patternTyped (hp p hmem), h'.inferred hs₄ hbody, (h₄.trans h').same hmatched, h₆.same hsame⟩

theorem infers_caseOf (id : NodeId) {inferScrutinee : InferM TypedExpr}
    {inferArms : Ty → Ty → InferM (List (TypedPattern × TypedExpr))} (hscrutinee : Infers session sites env inferScrutinee)
    (harms : InfersArms session sites env inferArms) : Infers session sites env (caseOf id inferScrutinee inferArms) := by
  intro s hs henv hsupports
  have hinner : Keeps (within "match" do
      let scrutinee ← inferScrutinee
      let result ← freshType
      return (scrutinee, result, ← inferArms scrutinee.ty result)) s fun x s' =>
        s'.Inferred session sites x.1 ∧ s'.Owns x.2.1 ∧ ∀ arm ∈ x.2.2, Arm session sites s' x.1.ty x.2.1 arm := by
    refine keeps_within hs fun s₁ h₁ hs₁ => ?_
    refine (hscrutinee s₁ hs₁ (h₁.ownsEnv henv) (h₁.supports hsupports)).bind fun e s₂ h₂ hs₂ he => ?_
    refine (keeps_freshType hs₂).bind fun result s₃ h₃ hs₃ hresult => ?_
    have h := (h₁.trans h₂).trans h₃
    refine (harms _ _ s₃ hs₃ (h.ownsEnv henv) (h.supports hsupports) (h₃.owns he.ty) hresult).bind fun arms s₄ h₄ hs₄ harms => ?_
    refine keeps_pure hs₄ fun s₅ h₅ _ => ⟨((h₃.trans h₄).trans h₅).inferred hs₂ he, (h₄.trans h₅).owns hresult, fun arm harm => ?_⟩
    exact (harms arm harm).of_leads hs₄ h₅
  refine hinner.bind fun x s₁ _ hs₁ ⟨he, hresult, harms⟩ => ?_
  have hrows := List.forall_mem_cons.mpr ⟨he.effects, List.forall_mem_map.mpr fun arm harm => (harms arm harm).body.effects⟩
  refine (keeps_joinEffects hs₁ id hrows).bind fun effects s₂ h₂ hs₂ hjoins => keeps_pure hs₂ ?_
  have hpatterns : ∀ arm ∈ x.2.2, ∀ p ∈ arm.1.nodes, s₂.PatternTyped session p := fun arm harm p hp =>
    h₂.patternTyped ((harms arm harm).patterns p hp)
  refine State.inferred_of_children ?_ ⟨List.forall_mem_map.mpr fun arm harm => (hpatterns arm harm arm.1 arm.1.mem_nodes_self).ty,
    List.forall_mem_flatMap.mpr hpatterns⟩ (fun _ A hA arm harm => ?_) nofun (h₂.owns hresult) (State.flows_of_join hjoins ?_ rfl nofun) rfl
  · exact List.forall_mem_cons.mpr ⟨h₂.inferred hs₁ he, List.forall_mem_map.mpr fun arm harm => h₂.inferred hs₁ (harms arm harm).body⟩
  · have hA₁ := h₂.accepts hA
    exact ⟨((harms arm harm).matched A hA₁).symm, ((harms arm harm).result A hA₁).symm⟩
  · exact List.forall_mem_cons.mpr ⟨List.mem_cons_self,
      List.forall_mem_map.mpr fun arm harm => List.mem_cons_of_mem _ (List.mem_map_of_mem harm)⟩

end Matches

end InferM

open InferM

variable (session : Session) {sites : Sites}

mutual

theorem infers_inferExpr : ∀ (e : Expr) (env : Env), (∀ env' e', Scoped env e env' e' → sites env' e') →
    Infers session sites env (inferExpr session env e)
  | .lit id l, _, _ => infers_noted (infers_literal id l) _
  | .var id name, _, _ => infers_noted (infers_variableUse id name) _
  | .lambda id params body, env, hsites => infers_noted (infers_function (.lambda id params body) rfl (hsites _ _ .here) fun bs hbs =>
      infers_inferExpr body (env.nest bs) fun _ _ h => hsites _ _ (.scope List.mem_cons_self hbs h)) _
  | .app id func args, env, hsites => infers_noted (infers_application id func
      (infers_inferExpr func env fun _ _ h => hsites _ _ (.part List.mem_cons_self h))
      (infers_inferExprs args env fun _ he _ _ h => hsites _ _ (.part (List.mem_cons_of_mem _ he) h)).all) _
  | .letIn id name value body, env, hsites => infers_noted (infers_letIn id name value
      (infers_inferExpr value env fun _ _ h => hsites _ _ (.part List.mem_cons_self h)) fun bs hbs =>
        infers_inferExpr body (env.nest bs) fun _ _ h => hsites _ _ (.scope List.mem_cons_self hbs h)) _
  | .letRec id bindings body, env, hsites => infers_noted (infers_letRec id bindings
      (fun bs hbs => infers_inferValues bindings (env.nest bs) fun b hb _ _ h => hsites _ _ (.scope (List.mem_map_of_mem
        (List.mem_cons_of_mem _ (List.mem_map_of_mem hb))) hbs h)) fun bs hbs =>
          infers_inferExpr body (env.nest bs) fun _ _ h => hsites _ _ (.scope List.mem_cons_self hbs h)) _
  | .cond id c t e, env, hsites => infers_noted (infers_cond id
      (infers_inferExpr c env fun _ _ h => hsites _ _ (.part (by simp [Expr.parts]) h))
      (infers_inferExpr t env fun _ _ h => hsites _ _ (.part (by simp [Expr.parts]) h))
      (infers_inferExpr e env fun _ _ h => hsites _ _ (.part (by simp [Expr.parts]) h))) _
  | .binary id op l r, env, hsites => infers_noted (infers_binary id op
      (infers_inferExpr l env fun _ _ h => hsites _ _ (.part (by simp [Expr.parts]) h))
      (infers_inferExpr r env fun _ _ h => hsites _ _ (.part (by simp [Expr.parts]) h))) _
  | .unary id op e, env, hsites => infers_noted (infers_unary id op
      (infers_inferExpr e env fun _ _ h => hsites _ _ (.part List.mem_cons_self h))) _
  | .record id fs, env, hsites => infers_noted (infers_record id
      (infers_inferFields fs env fun _ hf _ _ h => hsites _ _ (.part (List.mem_map_of_mem hf) h))) _
  | .field id e name, env, hsites => infers_noted (infers_field id
      (infers_inferExpr e env fun _ _ h => hsites _ _ (.part List.mem_cons_self h)) name) _
  | .update id e fs, env, hsites => infers_noted (infers_update id
      (infers_inferExpr e env fun _ _ h => hsites _ _ (.part List.mem_cons_self h))
      (infers_inferFields fs env fun _ hf _ _ h => hsites _ _ (.part (List.mem_cons_of_mem _ (List.mem_map_of_mem hf)) h))) _
  | .list id es, env, hsites => infers_noted (infers_list id
      (infers_inferExprs es env fun _ he _ _ h => hsites _ _ (.part he h))) _
  | .tuple id es, env, hsites => infers_noted (infers_tuple id
      (infers_inferExprs es env fun _ he _ _ h => hsites _ _ (.part he h)).all) _
  | .caseOf id e arms, env, hsites => infers_noted (infers_caseOf id
      (infers_inferExpr e env fun _ _ h => hsites _ _ (.part List.mem_cons_self h))
      (infers_inferArms arms env 0 fun _ harm _ hbs _ _ h => hsites _ _ (.scope (List.mem_map_of_mem harm) hbs h))) _

theorem infers_inferExprs : ∀ (es : List Expr) (env : Env), (∀ e ∈ es, ∀ env' e', Scoped env e env' e' → sites env' e') →
    InfersElems session sites env fun after => inferExprs session env after es
  | [], _, _ => fun _ _ _ hs _ _ _ => keeps_pure hs (List.forall_mem_nil _)
  | e :: es, env, hsites => fun after P s hs henv hsupports hafter => by
      rw [List.forall_mem_cons] at hsites
      refine (infers_inferExpr e env hsites.1 s hs henv hsupports).bind fun e s₁ h₁ hs₁ he => ?_
      refine (hafter e s₁ h₁ hs₁ he).bind fun _ s₂ h₂ hs₂ hP => ?_
      have h := h₁.trans h₂
      refine (infers_inferExprs es env hsites.2 after P s₂ hs₂ (h.ownsEnv henv) (h.supports hsupports)
        fun e s' h' => hafter e s' (h.trans h')).bind fun es s₃ h₃ hs₃ hes => keeps_pure hs₃ ?_
      exact List.forall_mem_cons.mpr ⟨⟨(h₂.trans h₃).inferred hs₁ he, h₃.entails hP⟩, hes⟩

theorem infers_inferFields : ∀ (fs : List (String × Expr)) (env : Env), (∀ f ∈ fs, ∀ env' e', Scoped env f.2 env' e' → sites env' e') →
    InfersFields session sites env fun after earlier => inferFields session env after earlier fs
  | [], _, _ => fun _ _ _ _ hs _ _ _ => keeps_pure hs ⟨List.forall_mem_nil _, fun _ _ => trivial⟩
  | (name, e) :: fs, env, hsites => fun after P earlier s hs henv hsupports hafter => by
      rw [List.forall_mem_cons] at hsites
      refine ((infers_inferExpr e env hsites.1).within (fieldLabel name) s hs henv hsupports).bind fun e s₁ h₁ hs₁ he => ?_
      refine (hafter earlier name e s₁ h₁ hs₁ he).bind fun _ s₂ h₂ hs₂ hP => ?_
      have h := h₁.trans h₂
      refine (infers_inferFields fs env hsites.2 after P (name :: earlier) s₂ hs₂ (h.ownsEnv henv) (h.supports hsupports)
        fun earlier name e s' h' => hafter earlier name e s' (h.trans h')).bind fun fs s₃ h₃ hs₃ ⟨hfs, heach⟩ => keeps_pure hs₃ ?_
      exact ⟨List.forall_mem_cons.mpr ⟨(h₂.trans h₃).inferred hs₁ he, hfs⟩, fun A hA => ⟨hP A (h₃.accepts hA), heach A hA⟩⟩

theorem infers_inferValues : ∀ (bs : List Binding) (env : Env), (∀ b ∈ bs, ∀ env' e', Scoped env b.2 env' e' → sites env' e') →
    InfersValues session sites env bs fun ts => inferValues session env ts bs
  | [], _, _, _, _, _, hs, _, _, _ => keeps_pure hs ⟨rfl, List.forall_mem_nil _⟩
  | (name, e) :: bs, env, hsites, ts, hlength, s, hs, henv, hsupports, hts => by
      obtain ⟨t, ts, rfl⟩ := List.exists_cons_of_length_eq_add_one hlength
      rw [List.forall_mem_cons] at hts hsites
      refine (infers_inferExpr e env hsites.1 s hs henv hsupports).bind fun e s₁ h₁ hs₁ he => ?_
      refine (keeps_equate hs₁ e.id .letRec (h₁.owns hts.1) he.ty).bind fun _ s₂ h₂ hs₂ _ => ?_
      have h := h₁.trans h₂
      refine (infers_inferValues bs env hsites.2 ts (by simpa using hlength) s₂ hs₂ (h.ownsEnv henv) (h.supports hsupports)
        fun t ht => h.owns (hts.2 t ht)).bind fun es s₃ h₃ hs₃ ⟨hes, hinferred⟩ => keeps_pure hs₃ ?_
      exact ⟨congrArg Nat.succ hes, List.forall_mem_cons.mpr ⟨(h₂.trans h₃).inferred hs₁ he, hinferred⟩⟩

theorem infers_inferArms : ∀ (arms : List (Pattern × Expr)) (env : Env) (index : Nat),
    (∀ arm ∈ arms, ∀ bs : List (String × Scheme), (∀ x ∈ arm.1.boundNames, x ∈ bs.map Prod.fst) →
      ∀ env' e', Scoped (env.nest bs) arm.2 env' e' → sites env' e') →
    InfersArms session sites env fun scrutinee result => inferArms session env scrutinee result index arms
  | [], _, _, _ => fun _ _ _ hs _ _ _ _ => keeps_pure hs (List.forall_mem_nil _)
  | (p, e) :: arms, env, index, hsites => fun scrutinee result s hs henv hsupports hscrutinee hresult => by
      rw [List.forall_mem_cons] at hsites
      refine (keeps_arm hs henv hsupports hscrutinee hresult index p fun bs hbs => infers_inferExpr e (env.nest bs)
        (hsites.1 bs hbs)).bind fun a s₁ h₁ hs₁ ha => ?_
      refine (infers_inferArms arms env (index + 1) hsites.2 scrutinee result s₁ hs₁ (h₁.ownsEnv henv) (h₁.supports hsupports)
        (h₁.owns hscrutinee) (h₁.owns hresult)).bind fun arms s₂ h₂ hs₂ harms => keeps_pure hs₂ ?_
      exact List.forall_mem_cons.mpr ⟨ha.of_leads hs₁ h₂, harms⟩

end

end RowTyping
