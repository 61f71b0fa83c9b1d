import RowTyping.Checker
import RowTyping.Proofs.Inference.Expressions

namespace RowTyping

namespace InferM

variable {c : Context} {session : Session} {env : Env}

section Waiting

theorem closeResultEffects_equations (node : NodeId) (ts : List Ty) (envRowVars : List RowVarId) (hc : c.equations = .empty) :
    Ensures (closeResultEffects node ts envRowVars) c fun _ c' => c'.equations = .empty := by
  apply ensures_get
  refine ensures_ite (fun _ => hc) fun _ => ?_
  exact .bind (ensures_forM (P := fun _ => True) trivial fun _ _ _ _ => trivial) fun _ _ _ => Context.equations_flush

theorem applyOutcome_equations (node : NodeId) (monotype : Ty) (outcome : DefaultingOutcome) :
    Ensures (applyOutcome node monotype outcome) c fun _ c' => c'.equations = c.equations := by
  have hdefaults (c : Context) : (c.applyDefaults outcome.subst).equations = c.equations := by
    rw [Context.applyDefaults_eq]
    split <;> rfl
  apply ensures_modify
  refine .bind (ensures_forM (P := fun c' => c'.equations = c.equations) rfl fun _ _ _ h => h) fun _ c' h => ?_
  exact ensures_ite (fun _ => (hdefaults _).trans h) fun _ => (hdefaults _).trans h

theorem resolveGround_equations (r : Registry) (rejected : List TypeVarId) (reported : List (String × String))
    (ks : List ClassConstraint) : Ensures (resolveGround r rejected reported ks) c fun _ c' => c'.equations = c.equations := by
  induction ks generalizing reported c with
  | nil => exact rfl
  | cons k ks ih =>
      rw [resolveGround]
      refine ensures_ite (fun _ => ih reported) fun _ => ?_
      refine ensures_ite (fun _ => .bind (ih reported) fun _ _ h => h) fun _ => ?_
      split
      · exact ensures_modify (ensures_modify (ensures_ite (fun _ => ih reported) fun _ => ih reported))
      · exact ensures_ite (fun _ => ih reported) fun _ => ensures_modify (ih _)
      · exact ensures_modify (ih reported)

theorem dispose_equations (level : BindingLevel) (ks : List ClassConstraint) :
    Ensures (dispose level ks) c fun _ c' => c'.equations = c.equations := by
  have hreport (seen : List (String × String)) : Ensures (reportUnsolved seen ks) c fun _ c' => c'.equations = c.equations := by
    induction ks generalizing seen c with
    | nil => exact rfl
    | cons k ks ih =>
        rw [reportUnsolved]
        exact ensures_ite (fun _ => ih seen) fun _ => ensures_modify (ih _)
  cases level with
  | topLevel => exact hreport []
  | nested => exact rfl

theorem closeBoundary_equations (node : NodeId) (ts : List Ty) (level : BindingLevel) (generalizable : Bool) :
    Ensures (closeBoundary session env node ts level generalizable) c fun _ c' => c'.equations = .empty := by
  rw [closeBoundary_eq]
  refine .bind (Q := fun _ c' => c'.equations = .empty) ?_ fun cl c₁ h₁ => ?_
  · refine ensures_solve (ensures_get (.bind (closeResultEffects_equations _ _ _ Context.equations_flush) fun _ c₂ h₂ => ?_))
    apply ensures_get
    refine .bind (applyOutcome_equations ..) fun _ c₃ h₃ => ?_
    refine .bind (Q := fun _ c' => c'.equations = .empty) (h₃.trans h₂) fun _ c₄ h₄ => ensures_get ?_
    exact .bind (resolveGround_equations ..) fun _ c₅ h₅ => h₅.trans h₄
  · have hschemes : Ensures (cl.types.mapM (schemeOf node cl.envTypeVars cl.envRowVars cl.pending)) c₁ fun _ c' =>
        c'.equations = .empty := by
      induction cl.types generalizing c₁ with
      | nil => exact h₁
      | cons t ts ih =>
          rw [List.mapM_cons]
          refine .bind (Q := fun _ c' => c'.equations = .empty) h₁ fun _ c₂ h₂ => ?_
          refine .bind (ih c₂ h₂) fun _ _ h => ?_
          exact h
    cases generalizable with
    | true =>
        refine .bind hschemes fun _ c₂ h₂ => ?_
        refine .bind (dispose_equations ..) fun _ _ h => ?_
        exact h.trans h₂
    | false =>
        exact .bind (f := fun _ => pure _) (dispose_equations level _) fun _ _ h => h.trans h₁

theorem binding_equations (value : Expr) (level : BindingLevel) (infer : InferM TypedExpr) :
    Ensures (binding session env value level infer) c fun _ c' => c'.equations = .empty := by
  apply ensures_modify
  refine .bind (Q := fun _ _ => True) trivial fun _ _ _ => ?_
  exact .bind (closeBoundary_equations ..) fun _ _ h => h

theorem topLevel_equations (e : Expr) (infer : InferM TypedExpr) :
    Ensures (topLevel session env e infer) c fun _ c' => c'.equations = .empty := by
  apply ensures_modify
  refine .bind (Q := fun _ _ => True) trivial fun _ _ _ => ?_
  exact .bind (closeBoundary_equations ..) fun _ _ h => h

theorem recGroup_equations (node : NodeId) (bindings : List Binding) (level : BindingLevel)
    (infer : Env → List Ty → InferM (List TypedExpr)) :
    Ensures (recGroup session env node bindings level infer) c fun _ c' => c'.equations = .empty := by
  apply ensures_modify
  refine .bind (Q := fun _ _ => True) trivial fun _ _ _ => ?_
  refine .bind (Q := fun _ _ => True) trivial fun _ _ _ => ?_
  exact .bind (closeBoundary_equations ..) fun _ _ h => h

theorem declare_equations (failed : Bool) (name : String) (scheme : Scheme) :
    Ensures (Checker.declare failed name scheme) c fun _ c' => c'.equations = c.equations :=
  ensures_ite (fun _ => rfl) fun _ => rfl

theorem declareAll_equations (failed : Bool) (bs : List TypedBinding) :
    Ensures (Checker.declareAll failed bs) c fun _ c' => c'.equations = c.equations := by
  induction bs generalizing c with
  | nil => exact rfl
  | cons b bs ih =>
      refine .bind (declare_equations ..) fun _ _ h => ?_
      refine .bind ih fun _ _ h' => ?_
      exact h'.trans h

theorem checkDecl_equations (d : Decl) : Ensures (Checker.checkDecl session env d) c fun _ c' => c'.equations = .empty := by
  refine ensures_get (ensures_modify (.bind (Q := fun _ c' => c'.equations = .empty) ?_ fun _ _ h => h))
  cases d with
  | bind =>
      refine .bind (binding_equations ..) fun _ _ h => ?_
      apply ensures_get
      exact .bind (declare_equations ..) fun _ _ h' => h'.trans h
  | bindRec =>
      refine .bind (recGroup_equations ..) fun _ _ h => ?_
      apply ensures_get
      exact .bind (declareAll_equations ..) fun _ _ h' => h'.trans h
  | expr => exact .bind (topLevel_equations ..) fun _ _ h => h

theorem checkDecls_equations (ds : List Decl) (hc : c.equations = .empty) :
    Ensures (Checker.checkDecls session env ds) c fun _ c' => c'.equations = .empty := by
  induction ds generalizing env c with
  | nil => exact hc
  | cons d ds ih =>
      refine .bind (checkDecl_equations d) fun _ _ h => ?_
      refine .bind (ih h) fun _ _ h' => ?_
      exact h'

end Waiting

end InferM

namespace State

variable {s s' : State} {session : Session} {sites : Sites}

def Declares (s : State) (session : Session) (sites : Sites) : TypedDecl → Prop
  | .bind _ name scheme value => s.OwnsScheme scheme ∧ (s.context.errors = [] → s.Bound session sites [⟨name, scheme, value⟩])
  | .bindRec _ bindings => (∀ b ∈ bindings, s.OwnsScheme b.scheme) ∧ (s.context.errors = [] → s.Bound session sites bindings)
  | .expr e => s.Inferred session sites e

theorem Leads.declares (h : s.Leads s') (hs : s.Ready) {d : TypedDecl} (hd : s.Declares session sites d) : s'.Declares session sites d := by
  cases d with
  | bind => exact ⟨h.ownsScheme hd.1, fun herrors => h.bound hs (hd.2 (h.errors herrors))⟩
  | bindRec => exact ⟨fun b hb => h.ownsScheme (hd.1 b hb), fun herrors => h.bound hs (hd.2 (h.errors herrors))⟩
  | expr => exact h.inferred hs hd

theorem Declares.ownsEnv {d : TypedDecl} (hd : s.Declares session sites d) {env : Env} (henv : s.OwnsEnv env) :
    s.OwnsEnv (env.bindAll (Checker.boundSchemes d)) := by
  apply henv.bindAll
  cases d with
  | bind => exact List.forall_mem_singleton.mpr hd.1
  | bindRec => exact List.forall_mem_map.mpr hd.1
  | expr => exact List.forall_mem_nil _

end State

namespace InferM

variable {s : State} {session : Session} {sites : Sites} {env : Env}

theorem keeps_within_alike {α : Type} {m : InferM α} {Q : α → State → Prop} (hs : s.Ready) {label : String}
    (hm : ∀ s', s.Leads s' → s'.Ready → s.context.Alike s'.context → Keeps m s' fun a s'' =>
      ∀ c, s''.context.Alike c → Q a ⟨c, s''.layout⟩) : Keeps (within label m) s Q := by
  refine (keeps_modify hs ⟨rfl, rfl, rfl, rfl⟩).bind fun _ s₁ h₁ hs₁ heq => ?_
  refine (hm s₁ h₁ hs₁ (heq ▸ ⟨rfl, rfl, rfl, rfl⟩)).bind fun a s₂ h₂ hs₂ hQ => ?_
  refine (keeps_modify hs₂ ⟨rfl, rfl, rfl, rfl⟩).bind fun _ s₃ h₃ hs₃ heq => keeps_pure hs₃ ?_
  exact heq ▸ hQ _ ⟨rfl, rfl, rfl, rfl⟩

def Reports (failed : Bool) (s : State) : Prop :=
  failed = true → s.context.errors ≠ []

theorem keeps_poison (hs : s.Ready) : Keeps Checker.poison s fun x s' =>
    s'.OwnsScheme x ∧ s'.context.classes = s.context.classes := by
  have hfresh : Keeps freshTypeVar s fun v s' => s'.supply.Covers (.type v) ∧ s'.context.classes = s.context.classes :=
    (keeps_freshTypeVar hs).and_ensures (R := fun _ c' => c'.classes = s.context.classes) rfl
  change Keeps (freshTypeVar >>= fun v => pure (⟨[.star v], [], [], .var (.star v)⟩ : Scheme)) s _
  exact hfresh.bind fun v s₁ h₁ hs₁ hv =>
    keeps_pure hs₁ ⟨⟨State.owns_var hv.1, List.forall_mem_nil _, List.forall_mem_nil _⟩, hv.2⟩

theorem keeps_declare (hs : s.Ready) (failed : Bool) (hfailed : Reports failed s) (name : String) {scheme : Scheme}
    (hscheme : s.OwnsScheme scheme) : Keeps (Checker.declare failed name scheme) s fun x s' =>
      s'.OwnsScheme x ∧ (s'.context.errors = [] → x = scheme) ∧ s'.context.classes = s.context.classes := by
  have hlog {s₁ : State} (h₁ : s.Leads s₁) (hs₁ : s₁.Ready) (hclasses : s₁.context.classes = s.context.classes) {x : Scheme}
      (hx : s₁.OwnsScheme x) (hsame : s₁.context.errors = [] → x = scheme) :
      Keeps (modify (Context.log (.declared name x)) >>= fun _ => pure x) s₁ fun x s' =>
        s'.OwnsScheme x ∧ (s'.context.errors = [] → x = scheme) ∧ s'.context.classes = s.context.classes := by
    refine (keeps_modify hs₁ ⟨rfl, rfl, rfl, rfl⟩).bind fun _ s₂ h₂ hs₂ heq => keeps_pure hs₂ ?_
    exact ⟨h₂.ownsScheme hx, fun herrors => hsame (h₂.errors herrors), by rw [heq]; exact hclasses⟩
  refine keeps_ite (fun h => ?_) fun _ => hlog (.refl s) hs rfl hscheme fun _ => rfl
  refine (keeps_poison hs).bind fun x s₁ h₁ hs₁ hx => ?_
  refine hlog h₁ hs₁ hx.2 hx.1 fun herrors => ?_
  exact absurd (h₁.errors herrors) (hfailed h)

theorem keeps_declareAll (hs : s.Ready) (failed : Bool) (hfailed : Reports failed s) {bs : List TypedBinding}
    (hbs : ∀ b ∈ bs, s.OwnsScheme b.scheme) : Keeps (Checker.declareAll failed bs) s fun bs' s' =>
      (∀ b ∈ bs', s'.OwnsScheme b.scheme) ∧ (s'.context.errors = [] → bs' = bs) ∧ s'.context.classes = s.context.classes := by
  induction bs generalizing s with
  | nil => exact keeps_pure hs ⟨List.forall_mem_nil _, fun _ => rfl, rfl⟩
  | cons b bs ih =>
      rw [List.forall_mem_cons] at hbs
      refine (keeps_declare hs failed hfailed b.name hbs.1).bind fun x s₁ h₁ hs₁ ⟨hx, hsame, hclasses⟩ => ?_
      refine (ih hs₁ (fun h herrors => hfailed h (h₁.errors herrors)) fun b hb => h₁.ownsScheme (hbs.2 b hb)).bind
        fun bs' s₂ h₂ hs₂ ⟨hbs', hsame', hclasses'⟩ => keeps_pure hs₂ ⟨?_, fun herrors => ?_, hclasses'.trans hclasses⟩
      · exact List.forall_mem_cons.mpr ⟨h₂.ownsScheme hx, hbs'⟩
      · obtain rfl := hsame (h₂.errors herrors)
        rw [hsame' herrors]
        cases b
        rfl

theorem keeps_checkDecl (hsites : ∀ env e, sites env e) (hs : s.Ready) (henv : s.OwnsEnv env) (hsupports : s.Supports session) (d : Decl) :
    Keeps (Checker.checkDecl session env d) s fun d' s' => s'.Declares session sites d' ∧ Settles .topLevel s s' := by
  apply keeps_get
  refine keeps_within_alike hs fun s₁ h₁ hs₁ halike => ?_
  have henv₁ := h₁.ownsEnv henv
  have hsupports₁ := h₁.supports hsupports
  have hstable {d' : TypedDecl} {s₂ : State} (hs₂ : s₂.Ready) (hd' : s₂.Declares session sites d') (hsettles : Settles .topLevel s₁ s₂) :
      ∀ c, s₂.context.Alike c → State.Declares ⟨c, s₂.layout⟩ session sites d' ∧ Settles .topLevel s ⟨c, s₂.layout⟩ := by
    refine fun c hc => ⟨(State.Leads.alike hc).declares hs₂ hd', fun htop hnil => ?_⟩
    change c.classes.toList = []
    rw [hc.classes]
    exact hsettles htop (by rw [halike.classes]; exact hnil)
  cases d with
  | bind id name value =>
      dsimp only [inferBinding]
      refine (keeps_binding hs₁ henv₁ hsupports₁ (infers_inferExpr session value env fun env e _ => hsites env e) value).bind fun b s₂ h₂ hs₂ ⟨hb, hsettles⟩ => ?_
      apply keeps_get
      refine (keeps_declare hs₂ (decide (s.context.errors.length < s₂.context.errors.length)) (fun h herrors => ?_) name
        ((hb "").schemes _ (List.mem_singleton_self _))).bind fun x s₃ h₃ hs₃ ⟨hx, hsame, hclasses⟩ => keeps_pure hs₃ ?_
      · simp [herrors] at h
      · refine hstable hs₃ ⟨hx, fun herrors => ?_⟩ fun htop hnil => ?_
        · rw [hsame herrors]
          exact h₃.bound hs₂ (hb name)
        · rw [hclasses]
          exact hsettles htop hnil
  | bindRec id bindings =>
      dsimp only [inferRecGroup]
      refine (keeps_recGroup hs₁ henv₁ hsupports₁ id bindings (fun bs _ => infers_inferValues session bindings (env.nest bs) fun _ _ env e _ => hsites env e)).bind
        fun bs s₂ h₂ hs₂ ⟨hbs, _, hsettles⟩ => keeps_get ?_
      refine (keeps_declareAll hs₂ (decide (s.context.errors.length < s₂.context.errors.length)) (fun h herrors => ?_)
        hbs.schemes).bind fun bs' s₃ h₃ hs₃ ⟨hbs', hsame, hclasses⟩ => keeps_pure hs₃ ?_
      · simp [herrors] at h
      · refine hstable hs₃ ⟨hbs', fun herrors => ?_⟩ fun htop hnil => ?_
        · rw [hsame herrors]
          exact h₃.bound hs₂ hbs
        · rw [hclasses]
          exact hsettles htop hnil
  | expr e =>
      dsimp only [inferTopLevel]
      refine (keeps_topLevel hs₁ henv₁ hsupports₁ (infers_inferExpr session e env fun env e _ => hsites env e) e).bind fun typed s₂ h₂ hs₂ ⟨htyped, hsettles⟩ => ?_
      exact keeps_pure hs₂ (hstable hs₂ htyped hsettles)

theorem keeps_checkDecls (hsites : ∀ env e, sites env e) (hs : s.Ready) (henv : s.OwnsEnv env) (hsupports : s.Supports session) (ds : List Decl) :
    Keeps (Checker.checkDecls session env ds) s fun ds' s' => (∀ d ∈ ds', s'.Declares session sites d) ∧ Settles .topLevel s s' := by
  induction ds generalizing s env with
  | nil => exact keeps_pure hs ⟨List.forall_mem_nil _, fun _ hnil => hnil⟩
  | cons d ds ih =>
      refine (keeps_checkDecl hsites hs henv hsupports d).bind fun d' s₁ h₁ hs₁ ⟨hd, hsettles⟩ => ?_
      refine (ih hs₁ (hd.ownsEnv (h₁.ownsEnv henv)) (h₁.supports hsupports)).bind fun ds' s₂ h₂ hs₂ ⟨hds, hsettles'⟩ => ?_
      exact keeps_pure hs₂ ⟨List.forall_mem_cons.mpr ⟨h₂.declares hs₁ hd, hds⟩, fun htop hnil => hsettles' htop (hsettles htop hnil)⟩

end InferM

end RowTyping
