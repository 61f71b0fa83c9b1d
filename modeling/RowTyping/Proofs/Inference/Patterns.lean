import RowTyping.Infer.Pattern
import RowTyping.Proofs.Inference.Bindings

namespace RowTyping

namespace State

variable {s s' : State}

def OwnsBound (s : State) (bound : BoundNames) : Prop :=
  ∀ b ∈ bound, s.Owns b.2

theorem Follows.ownsBound (h : s.Follows s') {bound : BoundNames} (hbound : s.OwnsBound bound) : s'.OwnsBound bound :=
  fun b hb => h.owns (hbound b hb)

theorem owns_positionalRecord {fields : OrderedMap Label Ty} (hpositional : ∀ φ ∈ s.layout, φ.positional = true)
    (h : ∀ f ∈ fields, s.Owns f.2) : s.Owns (Ty.positionalRecord fields) where
  within := by
    refine ⟨fun r hr => ?_, fun v hv => ?_⟩
    · rcases Ty.mem_rows_app.mp hr with hr | ⟨a, ha, hr⟩
      · exact absurd hr Ty.mem_rows_con
      · obtain ⟨f, hf, rfl⟩ := List.mem_map.mp ha
        exact (h f hf).within.1 r hr
    · rcases Ty.mem_vars_app.mp hv with hv | ⟨a, ha, hv⟩
      · exact absurd hv Ty.mem_vars_con
      · obtain ⟨f, hf, rfl⟩ := List.mem_map.mp ha
        exact (h f hf).within.2 v hv
  conforms φ hφ r hr := by
    rcases Ty.mem_rows_app.mp hr with hr | ⟨a, ha, hr⟩
    · exact absurd hr Ty.mem_rows_con
    · obtain ⟨f, hf, rfl⟩ := List.mem_map.mp ha
      exact (h f hf).conforms φ hφ r hr
  shaped φ hφ := .app (hpositional φ hφ) (.con _) (List.forall_mem_map.mpr fun f hf => (h f hf).shaped φ hφ)

theorem owns_recordType (hs : s.Ready) {session : Session} (hsupports : s.Supports session) {fields : List (Label × Ty)}
    (h : ∀ f ∈ fields, s.Owns f.2) : s.Owns (session.config.encoding.recordType (OrderedMap.ofList fields)) := by
  have hfields := mem_ofList h
  cases hencoding : session.config.encoding with
  | rows => exact owns_record (ownsRow_closedRecord hs hfields) rfl
  | positional =>
      refine owns_positionalRecord (fun φ hφ => ?_) hfields
      by_contra hrows
      have hrows := hsupports.rows ⟨φ, hφ, Bool.eq_false_of_not_eq_true hrows⟩
      rw [hencoding] at hrows
      cases hrows

end State

namespace InferM

variable {s : State} {session : Session} {bound : BoundNames}

theorem keeps_literalType (hs : s.Ready) (node : NodeId) (l : Literal) :
    Keeps (literalType node l) s fun t s' => s'.Owns t ∧ ∀ t' ∈ l.type?, t = t' := by
  have hnumber (className : String) :
      Keeps (freshType >>= fun t => addClass className t node .literal >>= fun _ => pure t) s fun t s' => s'.Owns t := by
    refine (keeps_freshType hs).bind fun t s₁ _ hs₁ ht => ?_
    refine (keeps_addClass hs₁ className ht.within node .literal).bind fun _ s₂ h₂ hs₂ _ => ?_
    exact keeps_pure hs₂ (h₂.owns ht)
  cases l with
  | int n => exact (hnumber "Num").mono fun _ _ _ _ ht => ⟨ht, nofun⟩
  | float x => exact (hnumber "Fractional").mono fun _ _ _ _ ht => ⟨ht, nofun⟩
  | string => exact keeps_pure hs ⟨State.owns_con _, fun _ h => Option.some.inj h⟩
  | bool => exact keeps_pure hs ⟨State.owns_con _, fun _ h => Option.some.inj h⟩
  | unit => exact keeps_pure hs ⟨State.owns_con _, fun _ h => Option.some.inj h⟩
  | bytes => exact keeps_pure hs ⟨State.owns_con _, fun _ h => Option.some.inj h⟩

theorem keeps_bindName (hs : s.Ready) (hbound : s.OwnsBound bound) (node : NodeId) (name : String) :
    Keeps (bindName node bound name) s fun x s' => (∀ p ∈ x.1.nodes, s'.PatternTyped session p) ∧ s'.OwnsBound x.2 := by
  refine (keeps_freshType hs).bind fun t s₁ h₁ hs₁ ht => ?_
  have hbound₁ := h₁.ownsBound hbound
  split
  next earlier hfind =>
    have hearlier := hbound₁ _ (OrderedMap.mem_of_find? hfind)
    exact (keeps_equate hs₁ node .patternMatch hearlier ht).bind fun _ s₂ h₂ hs₂ _ =>
      keeps_pure hs₂ ⟨List.forall_mem_singleton.mpr ⟨h₂.owns ht, trivial⟩, h₂.ownsBound hbound₁⟩
  next =>
    refine keeps_pure hs₁ ⟨List.forall_mem_singleton.mpr ⟨ht, trivial⟩, fun b hb => ?_⟩
    rcases OrderedMap.mem_insert hb with rfl | hb
    · exact ht
    · exact hbound₁ b hb

theorem keeps_recordPatternType (hs : s.Ready) (hsupports : s.Supports session) (id : NodeId) {fields : List (String × TypedPattern)}
    (h : ∀ f ∈ fields, s.Owns f.2.ty) (isOpen : Bool) :
    Keeps (recordPatternType session fields isOpen) s fun t s' => s'.PatternTyped session (.record id t fields isOpen) := by
  have htypes : ∀ f ∈ fields.map fun f => (f.1, f.2.ty), s.Owns f.2 := List.forall_mem_map.mpr h
  cases isOpen with
  | false => exact keeps_pure hs ⟨State.owns_recordType hs hsupports htypes, rfl⟩
  | true =>
      refine (keeps_freshRow hs (some (Fields.empty.join (.closedRecord (TypedPattern.listed fields))))).bind
        fun r s₁ h₁ hs₁ hr => keeps_pure hs₁ ?_
      have htypes₁ := State.mem_ofList fun f hf => h₁.owns (htypes f hf)
      refine ⟨State.owns_record (State.ownsRow_openRecord hs₁ htypes₁ hr.1 hr.2) rfl, _, rfl, fun f hf => ?_⟩
      have hlisted : OrderedMap.ofList (TypedPattern.listed fields) = TypedPattern.listed fields := OrderedMap.ofList_ofList _
      change OrderedMap.find? (OrderedMap.ofList (TypedPattern.listed fields)) f.1 = some f.2
      rw [hlisted]
      exact (OrderedMap.ascending_ofList _).find?_of_mem hf

def Follows (after : TypedPattern → InferM Unit) (s : State) : Prop :=
  ∀ p s', s.Leads s' → s'.Ready → s'.Owns p.ty → Keeps (after p) s' fun _ _ => True

mutual

theorem keeps_inferPattern : ∀ (p : Pattern) {s : State} {bound : BoundNames}, s.Ready → s.Supports session → s.OwnsBound bound →
    Keeps (inferPattern session bound p) s fun x s' => (∀ p ∈ x.1.nodes, s'.PatternTyped session p) ∧ s'.OwnsBound x.2
  | .wildcard id, _, _, hs, _, hbound => (keeps_freshType hs).bind fun t s₁ h₁ hs₁ ht =>
      keeps_pure hs₁ ⟨List.forall_mem_singleton.mpr ⟨ht, trivial⟩, h₁.ownsBound hbound⟩
  | .var id name, _, _, hs, _, hbound => keeps_bindName hs hbound id name
  | .lit id l, _, _, hs, _, hbound => (keeps_literalType hs id l).bind fun t s₁ h₁ hs₁ ht =>
      keeps_pure hs₁ ⟨List.forall_mem_singleton.mpr ⟨ht.1, trivial⟩, h₁.ownsBound hbound⟩
  | .tuple id ps, _, _, hs, hsupports, hbound => by
      refine (keeps_inferPatterns ps hs hsupports (fun _ _ _ hs' _ => keeps_pure hs' trivial) hbound).bind fun x _ h₁ hs₁ hx => ?_
      have htypes := List.forall_mem_map.mpr fun p hp => (hx.1 p (TypedPattern.mem_nodesAll hp)).ty
      exact keeps_pure hs₁ ⟨List.forall_mem_cons.mpr ⟨⟨State.owns_tuple htypes, trivial⟩, hx.1⟩, hx.2⟩
  | .list id ps rest, _, _, hs, hsupports, hbound => by
      refine (keeps_freshType hs).bind fun elem s₁ h₁ hs₁ helem => ?_
      refine (keeps_inferPatterns ps hs₁ (h₁.supports hsupports) (fun p s' h hs' hp => (keeps_equate hs' p.id .listElement
        (h.owns helem) hp).mono fun _ _ _ _ _ => trivial) (h₁.ownsBound hbound)).bind fun x s₂ h₂ hs₂ hx => ?_
      have h := h₁.trans h₂
      refine (keeps_inferPatternRest rest hs₂ (h.supports hsupports) (fun p s' h' hs' hp => (keeps_equate hs' p.id .patternMatch
        (State.owns_list (h'.owns (h₂.owns helem))) hp).mono fun _ _ _ _ _ => trivial) hx.2).bind fun y s₃ h₃ hs₃ hy => ?_
      have hparts := List.forall_mem_append.mpr ⟨fun p hp => h₃.patternTyped (hx.1 p hp), hy.1⟩
      exact keeps_pure hs₃ ⟨List.forall_mem_cons.mpr ⟨⟨State.owns_list (h₃.owns (h₂.owns helem)), trivial⟩, hparts⟩, hy.2⟩
  | .record id fs isOpen, _, _, hs, hsupports, hbound => by
      refine (keeps_inferPatternFields fs hs hsupports hbound).bind fun x s₁ h₁ hs₁ hx => ?_
      have htypes : ∀ f ∈ x.1, s₁.Owns f.2.ty := fun f hf => (hx.1 f.2 (TypedPattern.mem_nodesFields hf)).ty
      refine (keeps_recordPatternType hs₁ (h₁.supports hsupports) id htypes isOpen).bind fun t s₂ h₂ hs₂ ht => ?_
      exact keeps_pure hs₂ ⟨List.forall_mem_cons.mpr ⟨ht, fun p hp => h₂.patternTyped (hx.1 p hp)⟩, h₂.ownsBound hx.2⟩

theorem keeps_inferPatterns : ∀ (ps : List Pattern) {s : State} {bound : BoundNames} {after : TypedPattern → InferM Unit}, s.Ready →
    s.Supports session → Follows after s → s.OwnsBound bound → Keeps (inferPatterns session after bound ps) s fun x s' =>
      (∀ p ∈ TypedPattern.nodesAll x.1, s'.PatternTyped session p) ∧ s'.OwnsBound x.2
  | [], _, _, _, hs, _, _, hbound => keeps_pure hs ⟨List.forall_mem_nil _, hbound⟩
  | p :: ps, _, _, _, hs, hsupports, hafter, hbound => by
      refine (keeps_inferPattern p hs hsupports hbound).bind fun x s₁ h₁ hs₁ hx => ?_
      refine (hafter x.1 s₁ h₁ hs₁ (hx.1 x.1 x.1.mem_nodes_self).ty).bind fun _ s₂ h₂ hs₂ _ => ?_
      have h := h₁.trans h₂
      refine (keeps_inferPatterns ps hs₂ (h.supports hsupports) (fun p s' h' => hafter p s' (h.trans h')) (h₂.ownsBound hx.2)).bind
        fun y s₃ h₃ hs₃ hy => keeps_pure hs₃ ⟨?_, hy.2⟩
      exact List.forall_mem_append.mpr ⟨fun p hp => (h₂.trans h₃).patternTyped (hx.1 p hp), hy.1⟩

theorem keeps_inferPatternRest : ∀ (p : Option Pattern) {s : State} {bound : BoundNames} {after : TypedPattern → InferM Unit}, s.Ready →
    s.Supports session → Follows after s → s.OwnsBound bound → Keeps (inferPatternRest session after bound p) s fun x s' =>
      (∀ p ∈ TypedPattern.nodesRest x.1, s'.PatternTyped session p) ∧ s'.OwnsBound x.2
  | none, _, _, _, hs, _, _, hbound => keeps_pure hs ⟨List.forall_mem_nil _, hbound⟩
  | some p, _, _, _, hs, hsupports, hafter, hbound => by
      refine (keeps_inferPattern p hs hsupports hbound).bind fun x _ h₁ hs₁ hx => ?_
      refine (hafter x.1 _ h₁ hs₁ (hx.1 x.1 x.1.mem_nodes_self).ty).bind fun _ _ h₂ hs₂ _ => ?_
      exact keeps_pure hs₂ ⟨fun p hp => h₂.patternTyped (hx.1 p hp), h₂.ownsBound hx.2⟩

theorem keeps_inferPatternFields : ∀ (fs : List (String × Pattern)) {s : State} {bound : BoundNames}, s.Ready → s.Supports session →
    s.OwnsBound bound → Keeps (inferPatternFields session bound fs) s fun x s' =>
      (∀ p ∈ TypedPattern.nodesFields x.1, s'.PatternTyped session p) ∧ s'.OwnsBound x.2
  | [], _, _, hs, _, hbound => keeps_pure hs ⟨List.forall_mem_nil _, hbound⟩
  | (name, p) :: fs, _, _, hs, hsupports, hbound => by
      refine (keeps_inferPattern p hs hsupports hbound).bind fun x s₁ h₁ hs₁ hx => ?_
      refine (keeps_inferPatternFields fs hs₁ (h₁.supports hsupports) hx.2).bind fun y s₂ h₂ hs₂ hy => keeps_pure hs₂ ⟨?_, hy.2⟩
      exact List.forall_mem_append.mpr ⟨fun p hp => h₂.patternTyped (hx.1 p hp), hy.1⟩

end

end InferM

def BoundNames.Adds (bound : BoundNames) (names : List String) (bound' : BoundNames) : Prop :=
  ∀ x, x ∈ bound'.keys ↔ x ∈ bound.keys ∨ x ∈ names

theorem BoundNames.adds_nil (bound : BoundNames) : bound.Adds [] bound :=
  fun _ => (or_iff_left List.not_mem_nil).symm

theorem BoundNames.Adds.trans {bound bound₁ bound' : BoundNames} {names names' : List String} (h : bound.Adds names bound₁)
    (h' : bound₁.Adds names' bound') : bound.Adds (names ++ names') bound' := by
  intro x
  rw [h' x, h x, List.mem_append, or_assoc]

namespace InferM

variable (session : Session)

theorem ensures_bindName (id : NodeId) (bound : BoundNames) (name : String) (c : Context) :
    Ensures (bindName id bound name) c fun x _ => bound.Adds [name] x.2 := by
  refine .bind (Q := fun _ _ => True) trivial fun t c₁ _ => ?_
  split
  next earlier hfind =>
    refine .bind (Q := fun _ _ => True) trivial fun _ c₂ _ x => ⟨.inl, fun hx => hx.elim (fun h => h) fun h => ?_⟩
    rw [List.mem_singleton.mp h]
    exact OrderedMap.mem_keys_of_find? hfind
  next =>
    refine ensures_pure fun x => ?_
    rw [OrderedMap.mem_keys_insert, List.mem_singleton, or_comm]

mutual

theorem ensures_inferPattern : ∀ (p : Pattern) (bound : BoundNames) (c : Context),
    Ensures (inferPattern session bound p) c fun x _ => bound.Adds p.boundNames x.2
  | .wildcard _, bound, _ => bound.adds_nil
  | .var id name, bound, _ => ensures_bindName id bound name _
  | .lit _ _, bound, _ => bound.adds_nil
  | .tuple _ ps, bound, c => (ensures_inferPatterns ps _ bound c).bind fun _ _ h => h
  | .list _ ps rest, bound, _ => .bind (Q := fun _ _ => True) trivial fun _ c₁ _ => by
      refine (ensures_inferPatterns ps _ bound c₁).bind fun x c₂ h => ?_
      exact (ensures_inferPatternRest rest _ x.2 c₂).bind fun _ _ h' => h.trans h'
  | .record _ fs _, bound, c => (ensures_inferPatternFields fs bound c).bind fun _ _ h =>
      .bind (Q := fun _ _ => True) trivial fun _ _ _ => h

theorem ensures_inferPatterns : ∀ (ps : List Pattern) (after : TypedPattern → InferM Unit) (bound : BoundNames) (c : Context),
    Ensures (inferPatterns session after bound ps) c fun x _ => bound.Adds (Pattern.boundNamesAll ps) x.2
  | [], _, bound, _ => bound.adds_nil
  | p :: ps, after, bound, c => (ensures_inferPattern p bound c).bind fun x _ h => by
      refine .bind (Q := fun _ _ => True) trivial fun _ c₂ _ => ?_
      exact (ensures_inferPatterns ps after x.2 c₂).bind fun _ _ h' => h.trans h'

theorem ensures_inferPatternRest : ∀ (p : Option Pattern) (after : TypedPattern → InferM Unit) (bound : BoundNames) (c : Context),
    Ensures (inferPatternRest session after bound p) c fun x _ => bound.Adds (Pattern.boundNamesRest p) x.2
  | none, _, bound, _ => bound.adds_nil
  | some p, _, bound, c => (ensures_inferPattern p bound c).bind fun _ _ h => .bind (Q := fun _ _ => True) trivial fun _ _ _ => h

theorem ensures_inferPatternFields : ∀ (fs : List (String × Pattern)) (bound : BoundNames) (c : Context),
    Ensures (inferPatternFields session bound fs) c fun x _ => bound.Adds (Pattern.boundNamesFields fs) x.2
  | [], bound, _ => bound.adds_nil
  | (_, p) :: fs, bound, c => (ensures_inferPattern p bound c).bind fun x c₁ h =>
      (ensures_inferPatternFields fs x.2 c₁).bind fun _ _ h' => h.trans h'

end

end InferM

end RowTyping
