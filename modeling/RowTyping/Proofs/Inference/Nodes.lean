import RowTyping.Proofs.Inference.Tracking

namespace RowTyping

namespace Expr

mutual

def nodeIds : Expr → List NodeId
  | .lit id _ => [id]
  | .var id _ => [id]
  | .lambda id _ body => id :: body.nodeIds
  | .app id func args => id :: (func.nodeIds ++ nodeIdsAll args)
  | .letIn id _ value body => id :: (value.nodeIds ++ body.nodeIds)
  | .letRec id bindings body => id :: (nodeIdsFields bindings ++ body.nodeIds)
  | .cond id c t e => id :: (c.nodeIds ++ t.nodeIds ++ e.nodeIds)
  | .binary id _ l r => id :: (l.nodeIds ++ r.nodeIds)
  | .unary id _ operand => id :: operand.nodeIds
  | .record id fs => id :: nodeIdsFields fs
  | .field id base _ => id :: base.nodeIds
  | .update id base fs => id :: (base.nodeIds ++ nodeIdsFields fs)
  | .list id es => id :: nodeIdsAll es
  | .tuple id es => id :: nodeIdsAll es
  | .caseOf id scrutinee arms => id :: (scrutinee.nodeIds ++ nodeIdsArms arms)
termination_by structural e => e

def nodeIdsAll : List Expr → List NodeId
  | [] => []
  | e :: es => e.nodeIds ++ nodeIdsAll es
termination_by structural es => es

def nodeIdsFields : List (String × Expr) → List NodeId
  | [] => []
  | (_, e) :: fs => e.nodeIds ++ nodeIdsFields fs
termination_by structural fs => fs

def nodeIdsArms : List (Pattern × Expr) → List NodeId
  | [] => []
  | (_, e) :: arms => e.nodeIds ++ nodeIdsArms arms
termination_by structural arms => arms

end

end Expr

namespace InferM

open State

variable {s : State} {c : Context} {session : Session} {env : Env} {ids ids' ids₁ ids₂ ids₃ : List NodeId} {id : NodeId}

theorem Builds.noted {m : InferM TypedExpr} (h : Builds session env ids m) (e : Expr) : Builds session env ids (noted e m) :=
  fun s hs => (h s hs).noted fun _ s₁ _ hleads heq _ htracks =>
    htracks.calm (heq ▸ (idles_note ..).calm s₁.context) hleads.toFollows

section Atoms

theorem builds_literal (id : NodeId) (l : Literal) :
    Builds session env [id] (literalType id l >>= fun t => pure (.lit (pureNode id t) l)) :=
  fun _ hs => (Makes.start hs).idle (keeps_literalType hs.ready id l) (idles_literalType ..) fun _ _ _ _ t => t.done rfl

theorem instantiate_raises (scheme : Scheme) (node : NodeId) :
    Ensures (instantiate scheme node) c fun _ c' => c.Raises (fun i _ => i = node) c' := by
  refine ensures_ite (fun _ _ _ hp => .inl hp) fun _ => ?_
  refine .bind ((idles_freshTypeRenaming _).calm c) fun types c₁ h₁ => ?_
  refine .bind ((idles_freshRowRenaming _).calm c₁) fun rows c₂ h₂ => ?_
  have hpredicates : Ensures (addPredicates node ⟨OrderedMap.ofList types, OrderedMap.ofList rows⟩ scheme.predicates) c₂
      fun _ c' => c.Raises (fun i _ => i = node) c' := by
    refine ensures_forM (fun _ _ hp => .inl ((h₁.trans h₂) _ _ hp)) fun q _ c' h => ?_
    exact fun i p hp => (c'.raises_addClass _ _ node .instantiation i p hp).elim (h i p) fun hnew => .inr hnew.2.1
  exact hpredicates.bind fun _ _ h => h

theorem builds_variableUse (id : NodeId) (name : String) : Builds session env [id] (variableUse env id name) := by
  intro s hs
  rw [variableUse]
  split
  next scheme hscheme =>
    have hinstantiate := (keeps_instantiate hs.ready (hs.owned scheme (State.mem_schemes_of_lookup hscheme)) id).and_ensures
      (instantiate_raises scheme id)
    apply hinstantiate.bind
    rintro t s₁ h₁ hs₁ ⟨-, hraises⟩
    refine keeps_pure hs₁ ((Makes.start hs).tracks.parent (n := .var (pureNode id t) name) rfl (fun i hi p hp => ?_) h₁.toFollows ?_)
    · exact ⟨p, (hraises i p hp).resolve_right hi, rfl, .refl s₁ p.ty⟩
    · exact fun _ hvar => Bool.noConfusion hvar
  next =>
    refine (Makes.start hs).calm (keeps_report hs.ready id _) (.of_eq rfl rfl) fun _ s₁ _ _ t => ?_
    exact t.idle (keeps_freshType t.hosts.ready) idles_freshType fun _ s₂ _ _ t => t.done rfl

end Atoms

section Functions

theorem builds_function (lambda : Expr) (params : List String) {inferBody : Env → InferM TypedExpr}
    (hbody : ∀ env, TracksOne session env ids (inferBody env)) :
    Builds session env (lambda.id :: ids) (function session env lambda params inferBody) := by
  intro s hs
  simp only [function, within, bind_assoc, pure_bind]
  refine (Makes.start hs).alike ⟨rfl, rfl, rfl, rfl⟩ fun s₁ _ heq t => ?_
  refine t.idle (keeps_checkCaptures t.hosts.ready (congrArg State.context heq) session t.hosts.owned lambda) (idles_checkCaptures _)
    fun _ s₂ _ _ t => ?_
  refine t.idle (keeps_freshTypes t.hosts.ready params) (idles_mapM (fun _ => idles_freshType) _) fun types s₃ _ ⟨_, htypes⟩ t => ?_
  have hparams : ∀ p ∈ params.zip types, s₃.Owns p.2 := fun p hp => htypes p.2 (List.of_mem_zip hp).2
  have hinner : s₃.Hosts session (env.nest ((params.zip types).map fun p => (p.1, .mono p.2))) :=
    t.hosts.nest (List.forall_mem_map.mpr fun p hp => State.ownsScheme_mono (hparams p hp))
  refine t.part hinner (hbody _) fun body s₄ _ hbody t => ?_
  refine t.idle (keeps_latentEffects t.hosts.ready session lambda.id (t.owned body (List.mem_singleton_self _)).effects)
    (idles_latentEffects ..) fun _ s₅ _ _ t => ?_
  exact t.alike ⟨rfl, rfl, rfl, rfl⟩ fun _ _ _ t => t.done rfl

theorem builds_application (id : NodeId) (func : Expr) {inferFunc : InferM TypedExpr} {inferArgs : InferM (List TypedExpr)}
    (hfunc : TracksOne session env ids₁ inferFunc) (hargs : Tracked session env ids₂ (fun es => es) inferArgs) :
    Builds session env (id :: (ids₁ ++ ids₂)) (application id func inferFunc inferArgs) := by
  intro s hs
  simp only [application, within, bind_assoc, pure_bind]
  refine (Makes.start hs).alike ⟨rfl, rfl, rfl, rfl⟩ fun s₁ _ _ t => ?_
  refine t.part t.hosts hfunc fun func s₂ _ _ t => ?_
  refine t.part t.hosts hargs fun args s₃ _ _ t => ?_
  refine t.idle (keeps_flush t.hosts.ready) idles_flush fun _ s₄ _ _ t => ?_
  refine t.idle (keeps_applied t.hosts.ready (t.owned func List.mem_cons_self).ty) (idles_applied _) fun ft s₅ _ ⟨hft, _⟩ t => ?_
  have hargTys : ∀ a ∈ args, s₅.Owns a.ty := fun a ha => (t.owned a (List.mem_cons_of_mem _ ha)).ty
  refine t.idle (keeps_callee t.hosts.ready id func.id hargTys hft) (idles_callee ..) fun x s₆ _ ⟨_, hlatent, _⟩ t => ?_
  refine t.idle (keeps_flush t.hosts.ready) idles_flush fun _ s₇ h₇ _ t => ?_
  refine t.alike ⟨rfl, rfl, rfl, rfl⟩ fun s₈ h₈ _ t => ?_
  refine t.idle (keeps_joinEffects t.hosts.ready id ?_) (idles_joinEffects ..) fun _ _ _ _ t => t.done rfl
  exact List.forall_mem_append.mpr ⟨t.rows, List.forall_mem_singleton.mpr ((h₇.trans h₈).ownsEffects hlatent)⟩

theorem builds_cond (id : NodeId) {inferCondition inferThen inferElse : InferM TypedExpr} (hc : TracksOne session env ids₁ inferCondition)
    (ht : TracksOne session env ids₂ inferThen) (he : TracksOne session env ids₃ inferElse) :
    Builds session env (id :: (ids₁ ++ ids₂ ++ ids₃)) (cond id inferCondition inferThen inferElse) := by
  intro s hs
  simp only [cond, within, bind_assoc, pure_bind]
  refine (Makes.start hs).alike ⟨rfl, rfl, rfl, rfl⟩ fun s₁ _ _ t => ?_
  refine t.part t.hosts hc fun c s₂ _ _ t => ?_
  refine t.idle (keeps_equate t.hosts.ready c.id .ifCondition (State.owns_con _) (t.owned c List.mem_cons_self).ty) (idles_equate ..)
    fun _ s₃ _ _ t => ?_
  refine t.part t.hosts ht fun e₁ s₄ _ _ t => ?_
  refine t.part t.hosts he fun e₂ s₅ _ _ t => ?_
  have howned₁ := t.owned e₁ (List.mem_cons_of_mem _ List.mem_cons_self)
  have howned₂ := t.owned e₂ (List.mem_cons_of_mem _ (List.mem_cons_of_mem _ List.mem_cons_self))
  refine t.idle (keeps_equate t.hosts.ready id .ifBranches howned₁.ty howned₂.ty) (idles_equate ..) fun _ s₆ _ _ t => ?_
  refine t.alike ⟨rfl, rfl, rfl, rfl⟩ fun s₇ _ _ t => ?_
  exact t.idle (keeps_joinEffects t.hosts.ready id t.rows) (idles_joinEffects ..) fun _ _ _ _ t => t.done rfl

end Functions

section Collections

def Aside (session : Session) (s : State) (after : TypedExpr → InferM Unit) : Prop :=
  ∀ e, Idles (after e) ∧ ∀ s' : State, s.Leads s' → s'.Ready → s'.Inferred session .anywhere e → Keeps (after e) s' fun _ _ => True

theorem Aside.later {s' : State} {after : TypedExpr → InferM Unit} (h : Aside session s after) (hleads : s.Leads s') : Aside session s' after :=
  fun e => ⟨(h e).1, fun s'' h' => (h e).2 s'' (hleads.trans h')⟩

def TracksElems (session : Session) (env : Env) (ids : List NodeId) (infer : (TypedExpr → InferM Unit) → InferM (List TypedExpr)) : Prop :=
  ∀ (after : TypedExpr → InferM Unit) (s : State), s.Hosts session env → Aside session s after → Keeps (infer after) s fun es s' =>
    (∀ e ∈ es, s'.Inferred session .anywhere e) ∧ s.Tracks ids (es.flatMap TypedExpr.nodes) s'

theorem TracksElems.all {infer : (TypedExpr → InferM Unit) → InferM (List TypedExpr)} (h : TracksElems session env ids infer) :
    Tracked session env ids (fun es => es) (infer fun _ => pure ()) :=
  fun s hs => h _ s hs fun _ => ⟨idles_pure (), fun _ _ hs' _ => keeps_pure hs' trivial⟩

theorem builds_list (id : NodeId) {infer : (TypedExpr → InferM Unit) → InferM (List TypedExpr)} (h : TracksElems session env ids infer) :
    Builds session env (id :: ids) (list id infer) := by
  intro s hs
  refine (Makes.start hs).idle (keeps_freshType hs.ready) idles_freshType fun elem s₁ _ helem t => ?_
  have haside : Aside session s₁ fun e => equate e.id .listElement elem e.ty :=
    fun e => ⟨idles_equate .., fun s' h' hs' he => (keeps_equate hs' _ _ (h'.owns helem) he.ty).mono fun _ _ _ _ _ => trivial⟩
  refine t.made (h _ s₁ t.hosts haside) fun es s₂ _ _ t => ?_
  exact t.idle (keeps_joinEffects t.hosts.ready id t.rows) (idles_joinEffects ..) fun _ _ _ _ t => t.done rfl

theorem builds_tuple (id : NodeId) {infer : InferM (List TypedExpr)} (h : Tracked session env ids (fun es => es) infer) :
    Builds session env (id :: ids) (tuple id infer) :=
  fun _ hs => (Makes.start hs).part hs h fun _ _ _ _ t =>
    t.idle (keeps_joinEffects t.hosts.ready id t.rows) (idles_joinEffects ..) fun _ _ _ _ t => t.done rfl

def TracksFields (session : Session) (env : Env) (ids : List NodeId)
    (infer : (List String → String → TypedExpr → InferM Unit) → List String → InferM (List (String × TypedExpr))) : Prop :=
  ∀ (after : List String → String → TypedExpr → InferM Unit) (earlier : List String) (s : State), s.Hosts session env →
    (∀ earlier name, Aside session s (after earlier name)) → Keeps (infer after earlier) s fun fs s' =>
      (∀ e ∈ fs.map Prod.snd, s'.Inferred session .anywhere e) ∧ s.Tracks ids ((fs.map Prod.snd).flatMap TypedExpr.nodes) s'

variable {infer : (List String → String → TypedExpr → InferM Unit) → List String → InferM (List (String × TypedExpr))}

theorem builds_record (id : NodeId) (h : TracksFields session env ids infer) :
    Builds session env (id :: ids) (record session id (infer duplicateField [])) := by
  intro s hs
  have haside (earlier : List String) (name : String) : Aside session s (duplicateField earlier name) := fun e =>
    ⟨idles_duplicateField .., fun s' h' hs' he => (checks_duplicateField s earlier name e s' h' hs' he).mono fun _ _ _ _ _ => trivial⟩
  refine (Makes.start hs).made (h _ [] s hs haside) fun fs s₁ _ _ t => ?_
  have hrows : ∀ e ∈ fs.map fun f => f.2.effects, s₁.OwnsEffects e :=
    List.forall_mem_map.mpr fun f hf => (t.owned f.2 (List.mem_map_of_mem hf)).effects
  exact t.idle (keeps_joinEffects t.hosts.ready id hrows) (idles_joinEffects ..) fun _ _ _ _ t => t.done rfl

theorem builds_field (id : NodeId) {inferRecord : InferM TypedExpr} (h : TracksOne session env ids inferRecord) (name : String) :
    Builds session env (id :: ids) (field id inferRecord name) := by
  intro s hs
  refine (Makes.start hs).part hs h fun base s₁ _ _ t => ?_
  exact t.idle (keeps_fieldType t.hosts.ready id (t.owned base List.mem_cons_self).ty name) (idles_fieldType ..) fun _ _ _ _ t => t.done rfl

theorem builds_update (id : NodeId) {inferRecord : InferM TypedExpr} (h : TracksOne session env ids₁ inferRecord)
    (hfields : TracksFields session env ids₂ infer) :
    Builds session env (id :: (ids₁ ++ ids₂)) (update id inferRecord fun after => infer (fun _ => after) []) := by
  intro s hs
  refine (Makes.start hs).part hs h fun base s₁ _ _ t => ?_
  refine t.idle (keeps_flush t.hosts.ready) idles_flush fun _ s₂ _ _ t => ?_
  refine t.idle (keeps_applied t.hosts.ready (t.owned base List.mem_cons_self).ty) (idles_applied _) fun shape s₃ _ ⟨hshape, _⟩ t => ?_
  have hend {s₄ : State} (h₄ : s₃.Leads s₄) (hknown : knownFields? shape = none → s₄.context.errors ≠ [])
      (t : Makes session env s ([] ++ ids₁) ([] ++ [base]) s₄) : Keeps (do
        let fields ← infer (fun _ => replaceField shape (knownFields? shape)) []
        let effects ← joinEffects id (base.effects :: fields.map fun f => f.2.effects)
        return TypedExpr.update ⟨id, shape, effects⟩ base fields) s₄ fun e s' => s.Tracks (id :: (ids₁ ++ ids₂)) e.nodes s' := by
    have haside (earlier : List String) (name : String) : Aside session s₄ (replaceField shape (knownFields? shape) name) := fun e =>
      ⟨idles_replaceField .., fun s' h' hs' he =>
        (checks_replaceField (h₄.owns hshape) hknown earlier name e s' h' hs' he).mono fun _ _ _ _ _ => trivial⟩
    refine t.made (hfields _ [] s₄ t.hosts haside) fun fs s₅ _ _ t => ?_
    have hrows : ∀ e ∈ base.effects :: fs.map fun f => f.2.effects, s₅.OwnsEffects e :=
      List.forall_mem_cons.mpr ⟨(t.owned base List.mem_cons_self).effects, List.forall_mem_map.mpr fun f hf =>
        (t.owned f.2 (List.mem_cons_of_mem _ (List.mem_map_of_mem hf))).effects⟩
    exact t.idle (keeps_joinEffects t.hosts.ready id hrows) (idles_joinEffects ..) fun _ _ _ _ t => t.done rfl
  refine keeps_ite (fun hnone => ?_) fun hnone => ?_
  · exact t.idle (keeps_report t.hosts.ready id _) (idles_report _ Category.noConfusion) fun _ s₄ h₄ hne t => hend h₄ (fun _ => hne) t
  · exact hend (.refl s₃) (fun hn => absurd (by rw [hn]; rfl) hnone) t

end Collections

section Operators

theorem idles_operation {op : BinaryOp} (hop : op.isLogical = true) (id : NodeId) (left right : TypedExpr) :
    Idles (operation id op left right) :=
  idles_ite (fun _ => (idles_equate ..).bind fun _ => (idles_equate ..).bind fun _ => idles_pure _) fun hnot => absurd hop hnot

def AsksFor (id : NodeId) (classes : List String) (operand : Ty) (c c' : Context) : Prop :=
  ∃ className ∈ classes, c.Raises (fun i p => i = id ∧ p = ⟨className, c'.subst.apply operand⟩) c'

theorem asksFor_addClass {classes : List String} {className : String} (hclass : className ∈ classes) {operand : Ty} {c₁ : Context}
    (hcalm : c.Calm c₁) : AsksFor id classes operand c (c₁.addClass className (c₁.apply operand) id .operator) :=
  ⟨className, hclass, hcalm.raises fun i p hp => (c₁.raises_addClass _ _ _ _ i p hp).imp_right And.right⟩

theorem ensures_numericClass (t : Ty) : Ensures (numericClass t) c fun className c' => className ∈ ["Num", "Fractional"] ∧ c' = c := by
  refine ensures_get (ensures_pure ⟨?_, rfl⟩)
  split
  · exact List.mem_cons_of_mem _ List.mem_cons_self
  · exact List.mem_cons_self

theorem operation_asks {op : BinaryOp} (hop : op.classes ≠ []) (id : NodeId) (left right : TypedExpr) :
    Ensures (operation id op left right) c fun _ c' => AsksFor id op.classes left.ty c c' := by
  refine ensures_ite (fun hlogical => ?_) fun _ => ?_
  · cases op <;> first | exact absurd rfl hop | cases hlogical
  refine .bind ((idles_equate ..).calm c) fun _ c₁ h₁ => ?_
  refine .bind (idles_flush.calm c₁) fun _ c₂ h₂ => ?_
  have hcalm := h₁.trans h₂
  refine .bind (Q := fun t c' => t = c₂.apply left.ty ∧ c' = c₂) ⟨rfl, rfl⟩ ?_
  rintro _ _ ⟨rfl, rfl⟩
  refine ensures_ite (fun harith => ensures_ite (fun hmod => ?_) fun hmod => ?_) fun harith => ?_
  · subst hmod
    exact .intro (asksFor_addClass (List.mem_singleton_self "Integral") hcalm)
  · refine (ensures_numericClass _).bind ?_
    rintro className _ ⟨hclass, rfl⟩
    refine ensures_modify (asksFor_addClass ?_ hcalm)
    rwa [BinaryOp.classes, if_neg hmod, if_pos harith]
  · refine ensures_modify (asksFor_addClass ?_ hcalm)
    cases op <;> simp_all [BinaryOp.classes, BinaryOp.isArithmetic, BinaryOp.isComparison, BinaryOp.isEquality]

theorem negation_asks (id : NodeId) (operand : Ty) :
    Ensures (negation id operand) c fun _ c' => AsksFor id UnaryOp.neg.classes operand c c' := by
  refine .bind (idles_flush.calm c) fun _ c₁ hcalm => .bind (Q := fun t c' => t = c₁.apply operand ∧ c' = c₁) ⟨rfl, rfl⟩ ?_
  rintro _ _ ⟨rfl, rfl⟩
  refine (ensures_numericClass _).bind ?_
  rintro className _ ⟨hclass, rfl⟩
  exact ensures_modify (asksFor_addClass hclass hcalm)

theorem Makes.asked {s₀ : State} {n : TypedExpr} {s' : State} (t : Makes session env s₀ ids n.children s) (hleads : s.Leads s') (hs' : s'.Ready)
    {classes : List String} {operand : Ty} (hasks : AsksFor n.id classes operand s.context s'.context)
    (hdispatch : n.dispatch? = some (classes, operand)) (howned : s.Owns operand) (hoperands : ∀ u ∈ n.operands, s'.Same operand u) :
    Keeps (pure n) s' fun e s'' => s₀.Tracks (n.id :: ids) e.nodes s'' := by
  obtain ⟨className, hclass, hraises⟩ := hasks
  refine keeps_pure hs' (t.tracks.operator n.nodes_eq hraises hleads.toFollows hdispatch hclass ?_ hoperands)
  exact unites_apply howned.within.1

theorem builds_binary (id : NodeId) (op : BinaryOp) {inferLeft inferRight : InferM TypedExpr} (hl : TracksOne session env ids₁ inferLeft)
    (hr : TracksOne session env ids₂ inferRight) : Builds session env (id :: (ids₁ ++ ids₂)) (binary id op inferLeft inferRight) := by
  intro s hs
  refine (Makes.start hs).part hs hl fun l s₁ _ _ t => ?_
  refine t.part t.hosts hr fun r s₂ _ _ t => ?_
  refine t.idle (keeps_joinEffects t.hosts.ready id t.rows) (idles_joinEffects ..) fun effects s₃ _ _ t => ?_
  have hleft := (t.owned l List.mem_cons_self).ty
  have hright := (t.owned r (List.mem_cons_of_mem _ List.mem_cons_self)).ty
  refine keeps_ite (fun _ => ?_) fun hop => ?_
  · exact t.idle (keeps_concatenation t.hosts.ready id hleft hright) (idles_concatenation ..) fun _ _ _ _ t => t.done rfl
  have hkeeps := keeps_operation t.hosts.ready id op hleft hright hop
  by_cases hclasses : op.classes = []
  · have hlogical : op.isLogical = true := by
      cases op <;> first | rfl | exact absurd rfl hop | cases hclasses
    exact t.idle hkeeps (idles_operation hlogical id l r) fun _ _ _ _ t => t.done (if_pos hclasses)
  · have hlogical : ¬ op.isLogical = true := by
      intro hlogical
      cases op <;> first | exact hclasses rfl | cases hlogical
    refine (hkeeps.and_ensures (operation_asks hclasses id l r)).bind fun ty s₄ h₄ hs₄ ⟨⟨_, htyped, _⟩, hasks⟩ => ?_
    refine t.asked (n := .binary ⟨id, ty, effects⟩ op l r) h₄ hs₄ hasks (if_neg hclasses) hleft ?_
    exact List.forall_mem_cons.mpr ⟨fun _ _ => rfl, List.forall_mem_singleton.mpr fun A hA => ((if_neg hlogical).mp (htyped A hA)).1⟩

theorem builds_unary (id : NodeId) (op : UnaryOp) {inferOperand : InferM TypedExpr} (h : TracksOne session env ids inferOperand) :
    Builds session env (id :: ids) (unary id op inferOperand) := by
  intro s hs
  refine (Makes.start hs).part hs h fun operand s₁ _ _ t => ?_
  have howned := (t.owned operand List.mem_cons_self).ty
  cases op with
  | not => exact t.idle (keeps_equate t.hosts.ready id _ (State.owns_con _) howned) (idles_equate ..) fun _ _ _ _ t => t.done rfl
  | neg =>
      refine ((keeps_negation t.hosts.ready id howned).and_ensures (negation_asks id operand.ty)).bind fun ty s₂ h₂ hs₂ ⟨_, hasks⟩ => ?_
      refine t.asked (n := .unary ⟨id, ty, operand.effects⟩ .neg operand) h₂ hs₂ hasks rfl howned ?_
      exact List.forall_mem_singleton.mpr fun _ _ => rfl

end Operators

end InferM

end RowTyping
