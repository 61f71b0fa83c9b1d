import RowTyping.Proofs.Inference.Operators

namespace RowTyping

theorem Row.value_closedRecord (A : Assignment) (fs : List (Label × Ty)) :
    (Row.closedRecord fs).value A = .closedRecord (fs.map fun f => (f.1, f.2.value A)) := by
  rw [closedRecord, value_closed]
  exact congrArg (Row.mk .recordRow · none) (OrderedMap.mapValues_merge (Ty.value A) [] fs)

namespace State

variable {s : State} {r : Row} {l : Label} {t : Ty}

-- The tail of a record has none of the labels before it, so that it cannot hide a field.
theorem OwnsRow.get?_value (hs : s.Ready) (hr : s.OwnsRow r) (hkind : r.kind = .recordRow) {φ : Layout} (hφ : φ ∈ s.layout)
    (hget : r.get? l = some t) : s.Entails fun A => (r.value A).get? l = some (t.value A) := by
  intro A hA
  have htracks : φ.tracks r.kind = true := hkind ▸ (hs.records φ hφ).tracks_record
  have hapart : r.Apart A := (Row.conforms_start_iff.mp (hr.conforms φ hφ)).1.apart_of_rest htracks fun q hq =>
    hA.respects φ hφ q (Unifier.covers_rest hr.within hq)
  rw [Row.get?_value hA.ordered, hapart.find?_tail hget, hget, Option.none_or, Option.map_some]

theorem Owns.positionalLabels?_eq (ht : s.Owns t) (hrowed : s.Rowed) : t.positionalLabels? = none := by
  cases ht.shaped_of_rowed hrowed with
  | app h => cases h
  | _ => rfl

end State

namespace InferM

variable {s : State} {session : Session} {sites : Sites} {env : Env}

section Elements

def InfersElems (session : Session) (sites : Sites) (env : Env) (infer : (TypedExpr → InferM Unit) → InferM (List TypedExpr)) : Prop :=
  ∀ (after : TypedExpr → InferM Unit) (P : TypedExpr → Assignment → Prop) (s : State), s.Ready → s.OwnsEnv env →
    s.Supports session →
    (∀ e s', s.Leads s' → s'.Ready → s'.Inferred session sites e → Keeps (after e) s' fun _ s'' => s''.Entails (P e)) →
    Keeps (infer after) s fun es s' => ∀ e ∈ es, s'.Inferred session sites e ∧ s'.Entails (P e)

theorem InfersElems.all {infer : (TypedExpr → InferM Unit) → InferM (List TypedExpr)} (h : InfersElems session sites env infer) :
    InfersAll session sites env (infer fun _ => pure ()) :=
  fun s hs henv hsupports => (h (fun _ => pure ()) (fun _ _ => True) s hs henv hsupports fun _ _ _ hs' _ =>
    keeps_pure hs' fun _ _ => trivial).mono fun _ _ _ _ hes e he => (hes e he).1

theorem infers_list (id : NodeId) {infer : (TypedExpr → InferM Unit) → InferM (List TypedExpr)}
    (h : InfersElems session sites env infer) : Infers session sites env (list id infer) := by
  intro s hs henv hsupports
  refine (keeps_freshType hs).bind fun elem s₁ h₁ hs₁ helem => ?_
  refine (h _ (fun e A => elem.value A = e.ty.value A) s₁ hs₁ (h₁.ownsEnv henv) (h₁.supports hsupports) fun e s' h' hs' he =>
    keeps_equate hs' e.id .listElement (h'.owns helem) he.ty).bind fun es s₂ h₂ hs₂ hes => ?_
  refine (keeps_joinEffects hs₂ id (List.forall_mem_map.mpr fun e he => (hes e he).1.effects)).bind
    fun effects s₃ h₃ hs₃ hjoins => keeps_pure hs₃ ?_
  refine State.inferred_of_children (fun e he => h₃.inferred hs₂ (hes e he).1) (.of_nil rfl rfl) (fun _ A hA => ?_) nofun
    (State.owns_list ((h₂.trans h₃).owns helem)) (State.flows_of_join hjoins (fun c hc => List.mem_map_of_mem hc) rfl nofun) rfl
  exact ⟨elem.value A, rfl, fun e he => ((hes e he).2 A (h₃.accepts hA)).symm⟩

theorem infers_tuple (id : NodeId) {infer : InferM (List TypedExpr)} (h : InfersAll session sites env infer) :
    Infers session sites env (tuple id infer) := by
  intro s hs henv hsupports
  refine (h s hs henv hsupports).bind fun es s₁ h₁ hs₁ hes => ?_
  refine (keeps_joinEffects hs₁ id (List.forall_mem_map.mpr fun e he => (hes e he).effects)).bind
    fun effects s₂ h₂ hs₂ hjoins => keeps_pure hs₂ ?_
  refine State.inferred_of_children (h₂.inferredAll hs₁ hes) (.of_nil rfl rfl) (fun _ A _ => ?_) nofun
    (State.owns_tuple (List.forall_mem_map.mpr fun e he => h₂.owns (hes e he).ty))
    (State.flows_of_join hjoins (fun c hc => List.mem_map_of_mem hc) rfl nofun) rfl
  exact (Ty.value_tuple _).trans (congrArg Ty.tuple List.map_map)

end Elements

section Fields

def Each (P : List String → String → TypedExpr → Assignment → Prop) (A : Assignment) :
    List String → List (String × TypedExpr) → Prop
  | _, [] => True
  | earlier, f :: fs => P earlier f.1 f.2 A ∧ Each P A (f.1 :: earlier) fs

def Checks (session : Session) (sites : Sites) (s : State) (after : List String → String → TypedExpr → InferM Unit)
    (P : List String → String → TypedExpr → Assignment → Prop) : Prop :=
  ∀ earlier name e s', s.Leads s' → s'.Ready → s'.Inferred session sites e → Keeps (after earlier name e) s' fun _ s'' =>
    s''.Entails (P earlier name e)

def InfersFields (session : Session) (sites : Sites) (env : Env)
    (infer : (List String → String → TypedExpr → InferM Unit) → List String → InferM (List (String × TypedExpr))) : Prop :=
  ∀ after P earlier (s : State), s.Ready → s.OwnsEnv env → s.Supports session → Checks session sites s after P →
    Keeps (infer after earlier) s fun fs s' => (∀ f ∈ fs, s'.Inferred session sites f.2) ∧ s'.Entails fun A => Each P A earlier fs

variable {infer : (List String → String → TypedExpr → InferM Unit) → List String → InferM (List (String × TypedExpr))}

theorem checks_duplicateField (s : State) : Checks session sites s duplicateField fun earlier name _ _ => name ∉ earlier := by
  intro earlier name e s' _ hs' _
  refine keeps_ite (fun _ => ?_) fun hnot => keeps_pure hs' fun _ _ hmem => hnot (by simpa using hmem)
  exact (keeps_report hs' _ _).mono fun _ _ _ _ hne => State.entails_of_errors hne

theorem each_nodup {A : Assignment} {earlier : List String} {fs : List (String × TypedExpr)}
    (h : Each (fun earlier name _ _ => name ∉ earlier) A earlier fs) :
    (fs.map Prod.fst).Nodup ∧ ∀ f ∈ fs, f.1 ∉ earlier := by
  induction fs generalizing earlier with
  | nil => exact ⟨.nil, List.forall_mem_nil _⟩
  | cons f fs ih =>
      obtain ⟨hnodup, hnew⟩ := ih h.2
      refine ⟨List.nodup_cons.mpr ⟨fun hmem => ?_, hnodup⟩, List.forall_mem_cons.mpr ⟨h.1, fun g hg hmem => ?_⟩⟩
      · obtain ⟨g, hg, heq⟩ := List.mem_map.mp hmem
        exact hnew g hg (heq ▸ List.mem_cons_self)
      · exact hnew g hg (List.mem_cons_of_mem _ hmem)

theorem infers_record (id : NodeId) (h : InfersFields session sites env infer) :
    Infers session sites env (record session id (infer duplicateField [])) := by
  intro s hs henv hsupports
  refine (h _ _ [] s hs henv hsupports (checks_duplicateField s)).bind fun fs s₁ h₁ hs₁ ⟨hfs, heach⟩ => ?_
  refine (keeps_joinEffects hs₁ id (List.forall_mem_map.mpr fun f hf => (hfs f hf).effects)).bind
    fun effects s₂ h₂ hs₂ hjoins => keeps_pure hs₂ ?_
  have hsupports₂ := (h₁.trans h₂).supports hsupports
  have htypes : ∀ f ∈ fs.map fun f => (f.1, f.2.ty), s₂.Owns f.2 := List.forall_mem_map.mpr fun f hf => h₂.owns (hfs f hf).ty
  refine State.inferred_of_children (List.forall_mem_map.mpr fun f hf => h₂.inferred hs₁ (hfs f hf)) (.of_nil rfl rfl)
    (fun hrowed A hA => ⟨?_, (each_nodup (heach A (h₂.accepts hA))).1⟩) nofun (State.owns_recordType hs₂ hsupports₂ htypes)
    (State.flows_of_join hjoins (List.forall_mem_map.mpr fun f hf => List.mem_map_of_mem hf) rfl nofun) rfl
  change (session.config.encoding.recordType (OrderedMap.ofList (fs.map fun f => (f.1, f.2.ty)))).value A = _
  rw [hsupports₂.rows hrowed, RecordEncoding.recordType, Ty.value_record, Row.closedRecord, OrderedMap.ofList_ofList]
  exact congrArg Ty.record ((Row.value_closedRecord A _).trans (congrArg Row.closedRecord List.map_map))

theorem keeps_fieldType (hs : s.Ready) (id : NodeId) {base : Ty} (hbase : s.Owns base) (name : String) :
    Keeps (fieldType id base name) s fun t s' => s'.Owns t ∧ (s'.Rowed → s'.Entails fun A =>
      ∃ row, base.value A = .record row ∧ row.get? name = some (t.value A)) := by
  refine (keeps_flush hs).bind fun _ s₁ h₁ hs₁ _ => ?_
  refine (keeps_applied hs₁ (h₁.owns hbase)).bind fun record s₂ h₂ hs₂ ⟨hrecord, hsame⟩ => ?_
  split
  next labels hlabels =>
    have hnone {s' : State} (h : s₂.Leads s') {P : Prop} (hrowed : s'.Rowed) : P := by
      rw [(h.owns hrecord).positionalLabels?_eq hrowed] at hlabels
      cases hlabels
    split
    next t ht =>
      refine keeps_pure hs₂ ⟨?_, hnone (.refl s₂)⟩
      obtain ⟨i, -, hi⟩ := Option.bind_eq_some_iff.mp ht
      cases record with
      | app f args => exact ((State.inherited_owns s₂).app hrecord).2 t (List.mem_of_getElem? hi)
      | _ => cases hlabels
    next =>
      refine (keeps_report hs₂ id _).bind fun _ s₃ h₃ hs₃ hne => ?_
      refine (keeps_freshType hs₃).mono fun t s₄ h₄ _ ht => ?_
      exact ⟨ht, fun _ => State.entails_of_errors fun herrors => hne (h₄.errors herrors)⟩
  next =>
    refine (keeps_freshType hs₂).bind fun t s₃ h₃ hs₃ ht => ?_
    refine (keeps_freshRow hs₃ (some (Fields.empty.join (.closedRecord [(name, t)])))).bind fun rest s₄ h₄ hs₄ hrest => ?_
    have ht₄ := h₄.owns ht
    have hrow : s₄.OwnsRow (.openRecord [(name, t)] rest) :=
      State.ownsRow_openRecord hs₄ (List.forall_mem_singleton.mpr ht₄) hrest.1 hrest.2
    have h := h₃.trans h₄
    refine (keeps_equate hs₄ id _ (State.owns_record hrow rfl) (h.owns hrecord)).bind fun _ s₅ h₅ hs₅ hequal => keeps_pure hs₅ ?_
    refine ⟨h₅.owns ht₄, fun ⟨φ, hφ, _⟩ A hA => ⟨_, ?_, (h₅.ownsRow hrow).get?_value hs₅ rfl hφ ?_ A hA⟩⟩
    · exact (hsame A ((h.trans h₅).accepts hA)).symm.trans (hequal A hA).symm
    · exact (OrderedMap.find?_insert ..).trans (if_pos rfl)

theorem infers_field (id : NodeId) {inferRecord : InferM TypedExpr} (h : Infers session sites env inferRecord) (name : String) :
    Infers session sites env (field id inferRecord name) := by
  intro s hs henv hsupports
  refine (h s hs henv hsupports).bind fun base s₁ h₁ hs₁ hbase => ?_
  refine (keeps_fieldType hs₁ id hbase.ty name).bind fun t s₂ h₂ hs₂ ⟨ht, hrule⟩ => keeps_pure hs₂ ?_
  exact State.inferred_of_children (List.forall_mem_singleton.mpr (h₂.inferred hs₁ hbase)) (.of_nil rfl rfl) hrule nofun ht
    (State.flows_of_join (State.joins_singleton (h₂.ownsEffects hbase.effects)) (fun c hc => List.mem_map_of_mem hc) rfl nofun) rfl

def Holds (s : State) (base : Ty) (name : String) (e : TypedExpr) (A : Assignment) : Prop :=
  s.Rowed → ∃ row, base.value A = .record row ∧ row.get? name = some (e.ty.value A)

theorem checks_replaceField {base : Ty} (hbase : s.Owns base)
    (hknown : knownFields? base = none → s.context.errors ≠ []) :
    Checks session sites s (fun _ => replaceField base (knownFields? base)) fun _ => Holds s base := by
  intro _ name e s' h hs' he
  cases hfields : knownFields? base with
  | none => exact keeps_pure hs' (State.entails_of_errors fun herrors => hknown hfields (h.errors herrors))
  | some fields =>
      dsimp only [replaceField]
      split
      next t ht =>
        have howns : s'.Owns t := by
          cases base with
          | record r =>
              obtain rfl := Option.some.inj hfields
              exact (State.inherited_owns s').field ((State.inherited_owns s').record (h.owns hbase)) _ (OrderedMap.mem_of_find? ht)
          | app f args =>
              obtain ⟨labels, -, rfl⟩ := Option.map_eq_some_iff.mp hfields
              refine State.mem_ofList (fun f' hf' => ?_) _ (OrderedMap.mem_of_find? ht)
              exact ((State.inherited_owns s').app (h.owns hbase)).2 _ (List.of_mem_zip hf').2
          | _ => cases hfields
        refine (keeps_equate hs' e.id _ howns he.ty).mono fun _ s'' h' hs'' hequal A hA hrowed => ?_
        obtain ⟨φ, hφ, -⟩ := (h.trans h').rowed.mpr hrowed
        cases hbase.shaped_of_rowed hrowed with
        | app happ => cases happ
        | @record r hkind _ =>
            obtain rfl := Option.some.inj hfields
            have hrow : s''.OwnsRow r := (State.inherited_owns s'').record ((h.trans h').owns hbase)
            exact ⟨_, rfl, (hrow.get?_value hs'' hkind hφ ht A hA).trans (congrArg some (hequal A hA))⟩
        | _ => cases hfields
      next => exact (keeps_report hs' _ _).mono fun _ _ _ _ hne => State.entails_of_errors hne

theorem each_mem {P : String → TypedExpr → Assignment → Prop} {A : Assignment} {earlier : List String}
    {fs : List (String × TypedExpr)} (h : Each (fun _ => P) A earlier fs) : ∀ f ∈ fs, P f.1 f.2 A := by
  induction fs generalizing earlier with
  | nil => exact List.forall_mem_nil _
  | cons f fs ih => exact List.forall_mem_cons.mpr ⟨h.1, ih h.2⟩

theorem infers_update (id : NodeId) {inferRecord : InferM TypedExpr} (h : Infers session sites env inferRecord)
    (hfields : InfersFields session sites env infer) :
    Infers session sites env (update id inferRecord fun after => infer (fun _ => after) []) := by
  intro s hs henv hsupports
  refine (h s hs henv hsupports).bind fun base s₁ h₁ hs₁ hbase => ?_
  refine (keeps_flush hs₁).bind fun _ s₂ h₂ hs₂ _ => ?_
  refine (keeps_applied hs₂ (h₂.owns hbase.ty)).bind fun t s₃ h₃ hs₃ ⟨ht, hsame⟩ => ?_
  have hend {s₄ : State} (h₄ : s₃.Leads s₄) (hs₄ : s₄.Ready) (hknown : knownFields? t = none → s₄.context.errors ≠ []) :
      Keeps (do
        let fields ← infer (fun _ => replaceField t (knownFields? t)) []
        let effects ← joinEffects id (base.effects :: fields.map fun f => f.2.effects)
        return TypedExpr.update ⟨id, t, effects⟩ base fields) s₄ fun e s' => s'.Inferred session sites e := by
    have h := ((h₁.trans h₂).trans h₃).trans h₄
    refine (hfields _ _ [] s₄ hs₄ (h.ownsEnv henv) (h.supports hsupports) (checks_replaceField (h₄.owns ht) hknown)).bind
      fun fs s₅ h₅ hs₅ ⟨hfs, heach⟩ => ?_
    have h' := (h₂.trans h₃).trans (h₄.trans h₅)
    have hrows := List.forall_mem_cons.mpr ⟨h'.ownsEffects hbase.effects, List.forall_mem_map.mpr fun f hf => (hfs f hf).effects⟩
    refine (keeps_joinEffects hs₅ id hrows).bind fun effects s₆ h₆ hs₆ hjoins => keeps_pure hs₆ ?_
    have hlater := (h₄.trans h₅).trans h₆
    refine State.inferred_of_children ?_ (.of_nil rfl rfl) (fun hrowed A hA => ?_) nofun (hlater.owns ht)
      (State.flows_of_join hjoins ?_ rfl nofun) rfl
    · exact List.forall_mem_cons.mpr ⟨(h'.trans h₆).inferred hs₁ hbase, List.forall_mem_map.mpr fun f hf => h₆.inferred hs₅ (hfs f hf)⟩
    · have hrowed₄ : s₄.Rowed := (h₅.trans h₆).rowed.mp hrowed
      have htSame : t.value A = base.ty.value A := hsame A (hlater.accepts hA)
      have hholds := each_mem (heach A (h₆.accepts hA))
      cases (h₄.owns ht).shaped_of_rowed hrowed₄ with
      | app happ => cases happ
      | @record r =>
          refine ⟨htSame, _, htSame.symm, fun f hf => ?_⟩
          obtain ⟨row, hrow, hget⟩ := hholds f hf hrowed₄
          obtain rfl := Ty.record.inj hrow
          exact hget
      | _ => exact absurd ((h₅.trans h₆).errors hA.errors) (hknown rfl)
    · exact List.forall_mem_cons.mpr ⟨List.mem_cons_self,
        List.forall_mem_map.mpr fun f hf => List.mem_cons_of_mem _ (List.mem_map_of_mem hf)⟩
  refine keeps_ite (fun hnone => ?_) fun hnone => ?_
  · refine (keeps_report hs₃ id _).bind fun _ s₄ h₄ hs₄ hne => ?_
    exact hend h₄ hs₄ fun _ => hne
  · exact hend (.refl s₃) hs₃ fun hn => absurd (by rw [hn]; rfl) hnone

end Fields

end InferM

end RowTyping
