import RowTyping.Proofs.Inference.Trees

namespace RowTyping

namespace State

structure Lasting (P : State → TypedExpr → Prop) : Prop where
  later : ∀ {s s' : State} {n : TypedExpr}, s.Follows s' → P s n → P s' n
  applied : ∀ {s : State} {n : TypedExpr}, P s n → P s (s.subst.applyExpr n)

structure Pervaded (s : State) (P : State → TypedExpr → Prop) (e : TypedExpr) : Prop extends s.OwnsExpr e where
  nodes : ∀ n ∈ e.nodes, P s n

structure Grown (s : State) (session : Session) (P : State → TypedExpr → Prop) (e : TypedExpr) : Prop
    extends s.Inferred session .anywhere e where
  everywhere : ∀ n ∈ e.nodes, P s n

variable {P : State → TypedExpr → Prop} {s s' : State} {session : Session} {e : TypedExpr}

theorem Pervaded.later (hP : Lasting P) (he : s.Pervaded P e) (h : s.Follows s') : s'.Pervaded P e :=
  ⟨h.ownsExpr he.toOwnsExpr, fun n hn => hP.later h (he.nodes n hn)⟩

theorem Pervaded.applied (hP : Lasting P) (hs : s.Ready) (he : s.Pervaded P e) : s.Pervaded P (s.subst.applyExpr e) := by
  obtain ⟨hty, heffects⟩ := Inferred.apply hs he.ty he.effects
  refine ⟨⟨hty, heffects⟩, ?_⟩
  rw [Substitution.nodes_applyExpr]
  exact List.forall_mem_map.mpr fun n hn => hP.applied (he.nodes n hn)

theorem Grown.pervaded (he : s.Grown session P e) : s.Pervaded P e :=
  ⟨he.ownsExpr, he.everywhere⟩

theorem Grown.later (hP : Lasting P) (hs : s.Ready) (he : s.Grown session P e) (h : s.Leads s') : s'.Grown session P e :=
  ⟨h.inferred hs he.toInferred, fun n hn => hP.later h.toFollows (he.everywhere n hn)⟩

end State

namespace InferM

open State

variable {α β : Type} {P : State → TypedExpr → Prop} {s : State} {session : Session} {env env' : Env} {es : List TypedExpr} {id : NodeId}
  {Q : α → State → Prop} {R : β → State → Prop} {m : InferM α} {f : α → InferM β}

structure Along (P : State → TypedExpr → Prop) (session : Session) (env : Env) (es : List TypedExpr) (s : State) : Prop where
  hosts : s.Hosts session env
  parts : ∀ e ∈ es, s.Pervaded P e

def Spreads (P : State → TypedExpr → Prop) (session : Session) (env : Env) (parts : α → List TypedExpr) (m : InferM α) : Prop :=
  ∀ s : State, s.Hosts session env → Keeps m s fun a s' => ∀ e ∈ parts a, s'.Grown session P e

abbrev SpreadsOne (P : State → TypedExpr → Prop) (session : Session) (env : Env) (m : InferM TypedExpr) : Prop :=
  Spreads P session env (fun e => [e]) m

def SpreadsUnder (P : State → TypedExpr → Prop) (session : Session) (env : Env) (names : List String) (infer : Env → InferM TypedExpr) :
    Prop :=
  ∀ bs : List (String × Scheme), (∀ x ∈ names, x ∈ bs.map Prod.fst) → SpreadsOne P session (env.nest bs) (infer (env.nest bs))

def SpreadsBelow (P : State → TypedExpr → Prop) (session : Session) (env : Env) (m : InferM TypedExpr) : Prop :=
  ∀ s : State, s.Hosts session env → Keeps m s fun e s' => ∀ c ∈ e.children, s'.Pervaded P c

namespace Along

theorem start (h : s.Hosts session env) : Along P session env [] s :=
  ⟨h, List.forall_mem_nil _⟩

theorem done {n : TypedExpr} (t : Along P session env n.children s) : Keeps (pure n) s fun e s' => ∀ c ∈ e.children, s'.Pervaded P c :=
  keeps_pure t.hosts.ready t.parts

theorem effects (t : Along P session env es s) : ∀ e ∈ es.map TypedExpr.effects, s.OwnsEffects e :=
  List.forall_mem_map.mpr fun e he => (t.parts e he).effects

variable (hP : Lasting P)

include hP

theorem next (t : Along P session env es s) (hm : Keeps m s Q)
    (hf : ∀ a s', s.Leads s' → Q a s' → Along P session env es s' → Keeps (f a) s' R) : Keeps (m >>= f) s R :=
  hm.bind fun a s' hleads hs' hQ => hf a s' hleads hQ
    ⟨t.hosts.later hleads.toFollows hs', fun e he => (t.parts e he).later hP hleads.toFollows⟩

theorem made (t : Along P session env es s) {parts : α → List TypedExpr}
    (hm : Keeps m s fun a s' => Q a s' ∧ ∀ e ∈ parts a, s'.Pervaded P e)
    (hf : ∀ a s', s.Leads s' → Q a s' → Along P session env (es ++ parts a) s' → Keeps (f a) s' R) : Keeps (m >>= f) s R :=
  t.next hP hm fun a s' hleads ⟨hQ, hparts⟩ t' => hf a s' hleads hQ ⟨t'.hosts, List.forall_mem_append.mpr ⟨t'.parts, hparts⟩⟩

theorem some (t : Along P session env es s) {parts : α → List TypedExpr}
    (hm : Keeps m s fun a s' => ∀ e ∈ parts a, s'.Grown session P e)
    (hf : ∀ a s', s.Leads s' → (∀ e ∈ parts a, s'.Grown session P e) → Along P session env (es ++ parts a) s' → Keeps (f a) s' R) :
    Keeps (m >>= f) s R :=
  t.made hP (hm.mono fun _ _ _ _ h => ⟨h, fun e he => (h e he).pervaded⟩) hf

theorem part (t : Along P session env es s) {parts : α → List TypedExpr} (hs : s.Hosts session env')
    (hm : Spreads P session env' parts m) (hf : ∀ a s', s.Leads s' → Along P session env (es ++ parts a) s' → Keeps (f a) s' R) :
    Keeps (m >>= f) s R :=
  t.some hP (hm s hs) fun a s' hleads _ => hf a s' hleads

end Along

section Atoms

variable (hP : Lasting P)

include hP

theorem SpreadsBelow.noted {m : InferM TypedExpr} (h : SpreadsBelow P session env m) (e : Expr) : SpreadsBelow P session env (noted e m) :=
  fun s hs => (h s hs).noted fun _ _ _ hleads _ _ hchildren c hc => (hchildren c hc).later hP hleads.toFollows

theorem below_literal (id : NodeId) (l : Literal) :
    SpreadsBelow P session env (literalType id l >>= fun t => pure (.lit (pureNode id t) l)) :=
  fun _ hs => (Along.start hs).next hP (keeps_literalType hs.ready id l) fun _ _ _ _ t => t.done

theorem below_variableUse (id : NodeId) (name : String) : SpreadsBelow P session env (variableUse env id name) := by
  intro s hs
  rw [variableUse]
  split
  next scheme hscheme =>
    exact (Along.start hs).next hP (keeps_instantiate hs.ready (hs.owned scheme (State.mem_schemes_of_lookup hscheme)) id)
      fun _ _ _ _ t => t.done
  next =>
    refine (Along.start hs).next hP (keeps_report hs.ready id _) fun _ s₁ _ _ t => ?_
    exact t.next hP (keeps_freshType t.hosts.ready) fun _ _ _ _ t => t.done

end Atoms

section Functions

variable (hP : Lasting P)

include hP

theorem below_function (lambda : Expr) {params : List String} {inferBody : Env → InferM TypedExpr}
    (hbody : SpreadsUnder P session env params inferBody) : SpreadsBelow P session env (function session env lambda params inferBody) := by
  intro s hs
  simp only [function, within, bind_assoc, pure_bind]
  refine (Along.start hs).next hP (keeps_modify hs.ready ⟨rfl, rfl, rfl, rfl⟩) fun _ s₁ _ heq t => ?_
  refine t.next hP (keeps_checkCaptures t.hosts.ready (congrArg State.context heq) session t.hosts.owned lambda) fun _ s₂ _ _ t => ?_
  refine t.next hP (keeps_freshTypes t.hosts.ready params) fun types s₃ _ hzip t => ?_
  obtain ⟨hlength, htypes⟩ := hzip
  have hnames : ∀ x ∈ params, x ∈ ((params.zip types).map fun p => (p.1, Scheme.mono p.2)).map Prod.fst := by
    rw [List.map_map]
    change ∀ x ∈ params, x ∈ (params.zip types).map Prod.fst
    rw [List.map_fst_zip hlength.ge]
    exact fun _ hx => hx
  have hinner : s₃.Hosts session (env.nest ((params.zip types).map fun p => (p.1, .mono p.2))) :=
    t.hosts.nest (List.forall_mem_map.mpr fun p hp => State.ownsScheme_mono (htypes p.2 (List.of_mem_zip hp).2))
  refine t.part hP hinner (hbody _ hnames) fun body s₄ _ t => ?_
  refine t.next hP (keeps_latentEffects t.hosts.ready session lambda.id (t.parts body (List.mem_singleton_self _)).effects)
    fun _ s₅ _ _ t => ?_
  exact t.next hP (keeps_alike t.hosts.ready ⟨rfl, rfl, rfl, rfl⟩) fun _ _ _ _ t => t.done

theorem below_application (id : NodeId) (func : Expr) {inferFunc : InferM TypedExpr} {inferArgs : InferM (List TypedExpr)}
    (hfunc : SpreadsOne P session env inferFunc) (hargs : Spreads P session env (fun es => es) inferArgs) :
    SpreadsBelow P session env (application id func inferFunc inferArgs) := by
  intro s hs
  simp only [application, within, bind_assoc, pure_bind]
  refine (Along.start hs).next hP (keeps_alike hs.ready ⟨rfl, rfl, rfl, rfl⟩) fun _ s₁ _ _ t => ?_
  refine t.part hP t.hosts hfunc fun func s₂ _ t => ?_
  refine t.part hP t.hosts hargs fun args s₃ _ t => ?_
  refine t.next hP (keeps_flush t.hosts.ready) fun _ s₄ _ _ t => ?_
  refine t.next hP (keeps_applied t.hosts.ready (t.parts func List.mem_cons_self).ty) fun ft s₅ _ hft t => ?_
  have hargTys : ∀ a ∈ args, s₅.Owns a.ty := fun a ha => (t.parts a (List.mem_cons_of_mem _ ha)).ty
  refine t.next hP (keeps_callee t.hosts.ready id func.id hargTys hft.1) fun x s₆ _ hx t => ?_
  obtain ⟨-, hlatent, -⟩ := hx
  refine t.next hP (keeps_flush t.hosts.ready) fun _ s₇ h₇ _ t => ?_
  refine t.next hP (keeps_alike t.hosts.ready ⟨rfl, rfl, rfl, rfl⟩) fun _ s₈ h₈ _ t => ?_
  refine t.next hP (keeps_joinEffects t.hosts.ready id ?_) fun _ _ _ _ t => t.done
  exact List.forall_mem_append.mpr ⟨t.effects, List.forall_mem_singleton.mpr ((h₇.trans h₈).ownsEffects hlatent)⟩

theorem below_cond (id : NodeId) {inferCondition inferThen inferElse : InferM TypedExpr} (hc : SpreadsOne P session env inferCondition)
    (ht : SpreadsOne P session env inferThen) (he : SpreadsOne P session env inferElse) :
    SpreadsBelow P session env (cond id inferCondition inferThen inferElse) := by
  intro s hs
  simp only [cond, within, bind_assoc, pure_bind]
  refine (Along.start hs).next hP (keeps_alike hs.ready ⟨rfl, rfl, rfl, rfl⟩) fun _ s₁ _ _ t => ?_
  refine t.part hP t.hosts hc fun c s₂ _ t => ?_
  refine t.next hP (keeps_equate t.hosts.ready c.id .ifCondition (State.owns_con _) (t.parts c List.mem_cons_self).ty) fun _ s₃ _ _ t => ?_
  refine t.part hP t.hosts ht fun e₁ s₄ _ t => ?_
  refine t.part hP t.hosts he fun e₂ s₅ _ t => ?_
  have howned₁ := t.parts e₁ (List.mem_cons_of_mem _ List.mem_cons_self)
  have howned₂ := t.parts e₂ (List.mem_cons_of_mem _ (List.mem_cons_of_mem _ List.mem_cons_self))
  refine t.next hP (keeps_equate t.hosts.ready id .ifBranches howned₁.ty howned₂.ty) fun _ s₆ _ _ t => ?_
  refine t.next hP (keeps_alike t.hosts.ready ⟨rfl, rfl, rfl, rfl⟩) fun _ s₇ _ _ t => ?_
  exact t.next hP (keeps_joinEffects t.hosts.ready id t.effects) fun _ _ _ _ t => t.done

end Functions

section Operators

variable (hP : Lasting P)

include hP

theorem below_binary (id : NodeId) (op : BinaryOp) {inferLeft inferRight : InferM TypedExpr} (hl : SpreadsOne P session env inferLeft)
    (hr : SpreadsOne P session env inferRight) : SpreadsBelow P session env (binary id op inferLeft inferRight) := by
  intro s hs
  refine (Along.start hs).part hP hs hl fun l s₁ _ t => ?_
  refine t.part hP t.hosts hr fun r s₂ _ t => ?_
  refine t.next hP (keeps_joinEffects t.hosts.ready id t.effects) fun effects s₃ _ _ t => ?_
  have hleft := (t.parts l List.mem_cons_self).ty
  have hright := (t.parts r (List.mem_cons_of_mem _ List.mem_cons_self)).ty
  refine keeps_ite (fun _ => ?_) fun hop => ?_
  · exact t.next hP (keeps_concatenation t.hosts.ready id hleft hright) fun _ _ _ _ t => t.done
  · exact t.next hP (keeps_operation t.hosts.ready id op hleft hright hop) fun _ _ _ _ t => t.done

theorem below_unary (id : NodeId) (op : UnaryOp) {inferOperand : InferM TypedExpr} (h : SpreadsOne P session env inferOperand) :
    SpreadsBelow P session env (unary id op inferOperand) := by
  intro s hs
  refine (Along.start hs).part hP hs h fun operand s₁ _ t => ?_
  have howned := (t.parts operand List.mem_cons_self).ty
  cases op with
  | not => exact t.next hP (keeps_equate t.hosts.ready id _ (State.owns_con _) howned) fun _ _ _ _ t => t.done
  | neg => exact t.next hP (keeps_negation t.hosts.ready id howned) fun _ _ _ _ t => t.done

end Operators

section Collections

def SpreadsElems (P : State → TypedExpr → Prop) (session : Session) (env : Env)
    (infer : (TypedExpr → InferM Unit) → InferM (List TypedExpr)) : Prop :=
  ∀ (after : TypedExpr → InferM Unit) (s : State), s.Hosts session env → Aside session s after →
    Keeps (infer after) s fun es s' => ∀ e ∈ es, s'.Grown session P e

theorem SpreadsElems.all {infer : (TypedExpr → InferM Unit) → InferM (List TypedExpr)} (h : SpreadsElems P session env infer) :
    Spreads P session env (fun es => es) (infer fun _ => pure ()) :=
  fun s hs => h _ s hs fun _ => ⟨idles_pure (), fun _ _ hs' _ => keeps_pure hs' trivial⟩

def SpreadsFields (P : State → TypedExpr → Prop) (session : Session) (env : Env)
    (infer : (List String → String → TypedExpr → InferM Unit) → List String → InferM (List (String × TypedExpr))) : Prop :=
  ∀ (after : List String → String → TypedExpr → InferM Unit) (earlier : List String) (s : State), s.Hosts session env →
    (∀ earlier name, Aside session s (after earlier name)) →
      Keeps (infer after earlier) s fun fs s' => ∀ e ∈ fs.map Prod.snd, s'.Grown session P e

variable {infer : (List String → String → TypedExpr → InferM Unit) → List String → InferM (List (String × TypedExpr))} (hP : Lasting P)

include hP

theorem below_list (id : NodeId) {infer : (TypedExpr → InferM Unit) → InferM (List TypedExpr)} (h : SpreadsElems P session env infer) :
    SpreadsBelow P session env (list id infer) := by
  intro s hs
  refine (Along.start hs).next hP (keeps_freshType hs.ready) fun elem s₁ _ helem t => ?_
  have haside : Aside session s₁ fun e => equate e.id .listElement elem e.ty :=
    fun e => ⟨idles_equate .., fun s' h' hs' he => (keeps_equate hs' _ _ (h'.owns helem) he.ty).mono fun _ _ _ _ _ => trivial⟩
  refine t.some hP (h _ s₁ t.hosts haside) fun es s₂ _ _ t => ?_
  exact t.next hP (keeps_joinEffects t.hosts.ready id t.effects) fun _ _ _ _ t => t.done

theorem below_tuple (id : NodeId) {infer : InferM (List TypedExpr)} (h : Spreads P session env (fun es => es) infer) :
    SpreadsBelow P session env (tuple id infer) :=
  fun _ hs => (Along.start hs).part hP hs h fun _ _ _ t =>
    t.next hP (keeps_joinEffects t.hosts.ready id t.effects) fun _ _ _ _ t => t.done

theorem below_record (id : NodeId) (h : SpreadsFields P session env infer) :
    SpreadsBelow P session env (record session id (infer duplicateField [])) := by
  intro s hs
  have haside (earlier : List String) (name : String) : Aside session s (duplicateField earlier name) := fun e =>
    ⟨idles_duplicateField .., fun s' h' hs' he => (checks_duplicateField s earlier name e s' h' hs' he).mono fun _ _ _ _ _ => trivial⟩
  refine (Along.start hs).some hP (h _ [] s hs haside) fun fs s₁ _ _ t => ?_
  have hrows : ∀ e ∈ fs.map fun f => f.2.effects, s₁.OwnsEffects e :=
    List.forall_mem_map.mpr fun f hf => (t.parts f.2 (List.mem_map_of_mem hf)).effects
  exact t.next hP (keeps_joinEffects t.hosts.ready id hrows) fun _ _ _ _ t => t.done

theorem below_field (id : NodeId) {inferRecord : InferM TypedExpr} (h : SpreadsOne P session env inferRecord) (name : String) :
    SpreadsBelow P session env (field id inferRecord name) := by
  intro s hs
  refine (Along.start hs).part hP hs h fun base s₁ _ t => ?_
  exact t.next hP (keeps_fieldType t.hosts.ready id (t.parts base List.mem_cons_self).ty name) fun _ _ _ _ t => t.done

theorem below_update (id : NodeId) {inferRecord : InferM TypedExpr} (h : SpreadsOne P session env inferRecord)
    (hfields : SpreadsFields P session env infer) :
    SpreadsBelow P session env (update id inferRecord fun after => infer (fun _ => after) []) := by
  intro s hs
  refine (Along.start hs).part hP hs h fun base s₁ _ t => ?_
  refine t.next hP (keeps_flush t.hosts.ready) fun _ s₂ _ _ t => ?_
  refine t.next hP (keeps_applied t.hosts.ready (t.parts base List.mem_cons_self).ty) fun shape s₃ _ hshape t => ?_
  have hend {s₄ : State} (h₄ : s₃.Leads s₄) (hknown : knownFields? shape = none → s₄.context.errors ≠ [])
      (t : Along P session env ([] ++ [base]) s₄) : Keeps (do
        let fields ← infer (fun _ => replaceField shape (knownFields? shape)) []
        let effects ← joinEffects id (base.effects :: fields.map fun f => f.2.effects)
        return TypedExpr.update ⟨id, shape, effects⟩ base fields) s₄ fun e s' => ∀ c ∈ e.children, s'.Pervaded P c := by
    have haside (earlier : List String) (name : String) : Aside session s₄ (replaceField shape (knownFields? shape) name) := fun e =>
      ⟨idles_replaceField .., fun s' h' hs' he =>
        (checks_replaceField (h₄.owns hshape.1) hknown earlier name e s' h' hs' he).mono fun _ _ _ _ _ => trivial⟩
    refine t.some hP (hfields _ [] s₄ t.hosts haside) fun fs s₅ _ _ t => ?_
    have hrows : ∀ e ∈ base.effects :: fs.map fun f => f.2.effects, s₅.OwnsEffects e :=
      List.forall_mem_cons.mpr ⟨(t.parts base List.mem_cons_self).effects, List.forall_mem_map.mpr fun f hf =>
        (t.parts f.2 (List.mem_cons_of_mem _ (List.mem_map_of_mem hf))).effects⟩
    exact t.next hP (keeps_joinEffects t.hosts.ready id hrows) fun _ _ _ _ t => t.done
  refine keeps_ite (fun hnone => ?_) fun hnone => ?_
  · exact t.next hP (keeps_report t.hosts.ready id _) fun _ s₄ h₄ hne t => hend h₄ (fun _ => hne) t
  · exact hend (.refl s₃) (fun hn => absurd (by rw [hn]; rfl) hnone) t

end Collections

end InferM

end RowTyping
