import RowTyping.Infer.Effects
import RowTyping.Proofs.Inference.Rows

namespace RowTyping

def Ty.Supplies (t param : Ty) : Prop :=
  t = param ∨ ∃ ps e e' r, t = .fn ps e r ∧ param = .fn ps e' r ∧ Effects.tail e = none ∧
    ∀ l ∈ Effects.labels e, l ∈ Effects.labels e'

namespace Ty

variable {A : Assignment}

theorem supplies_opened (hA : A.Ordered) {ps : List Ty} {e : Effects} {r : Ty} (he : Effects.tail e = none) (w : RowVarId) :
    Supplies ((Ty.fn ps e r).value A) ((Ty.fn ps (Effects.opened (Effects.labels e) w) r).value A) := by
  rw [value_fn, value_fn]
  have hrest : (Effects.toRow e).rest = none := by
    cases e with
    | none => rfl
    | some row => exact he
  refine .inr ⟨_, _, _, _, rfl, rfl, ?_, fun l hl => ?_⟩
  · change ((Effects.toRow e).value A).rest = none
    rw [Row.rest_value, hrest]
    rfl
  · have hl : l ∈ ((Effects.toRow e).value A).labels := hl
    have hlabel : l ∈ Effects.labels e := by
      rw [Row.value_eq, hrest, Row.labels] at hl
      have hl : l ∈ OrderedMap.keys (OrderedMap.mapValues (Ty.value A) (Effects.toRow e).fields) := hl
      rw [OrderedMap.keys_mapValues] at hl
      cases e with
      | none => cases hl
      | some row => exact hl
    change l ∈ (Row.value A (.openEffects (Effects.labels e) w)).labels
    rw [Row.value_eq, Row.labels, OrderedMap.mem_keys_merge (hA.tail _), OrderedMap.keys_mapValues]
    exact .inl (OrderedMap.mem_keys_ofList.mpr (by simpa using hlabel))

end Ty

theorem Row.row_of_openEffects {A : Assignment} (hA : A.Ordered) {r r' : RowVarId}
    (h : (Row.openEffects [] r).value A = (Row.openEffects [] r').value A) : A.row r = A.row r' := by
  have htail (r : RowVarId) : ((Row.openEffects [] r).value A).tail = A.row r := by
    rw [Row.tail_value]
    change (⟨OrderedMap.merge [] (A.row r).fields, (A.row r).rest⟩ : Tail) = A.row r
    rw [OrderedMap.nil_merge (hA r)]
  rw [← htail r, h, htail]

namespace State

variable {s s' : State} {e : Effects} {rows : List Effects}

structure Joins (s : State) (e : Effects) (rows : List Effects) : Prop where
  owned : s.OwnsEffects e
  includes : s.Entails fun A => ∀ e' ∈ rows, (e.value A).Includes (e'.value A)

theorem Follows.joins (h : s.Follows s') (he : s.Joins e rows) : s'.Joins e rows :=
  ⟨h.ownsEffects he.owned, h.entails he.includes⟩

theorem Joins.of_applied (hs : s.Ready) (h : s.Follows s') (hrows : ∀ e ∈ rows, s.OwnsEffects e)
    (hjoins : s'.Joins e (rows.map s.subst.applyEffects)) : s'.Joins e rows := by
  refine ⟨hjoins.owned, fun A hA e' he' => ?_⟩
  have hincludes := hjoins.includes A hA _ (List.mem_map_of_mem he')
  rwa [hs.entails_applyEffects (hrows e' he').within.1 A (h.accepts hA)] at hincludes

theorem joins_unionAll (hs : s.Ready) (hrows : ∀ e ∈ rows, s.OwnsEffects e) (htails : s.Entails fun A =>
      ∀ e₁ ∈ rows, ∀ e₂ ∈ rows, ∀ r₁ r₂, e₁.tail = some r₁ → e₂.tail = some r₂ → A.row r₁ = A.row r₂) :
    s.Joins (Effects.normalize (s.subst.applyEffects (Effects.unionAll rows))) rows := by
  have hunion := State.OwnsEffects.unionAll hs hrows
  refine ⟨(hunion.applyEffects hs).normalize hs, fun A hA e' he' => ?_⟩
  have hincludes := (Effects.covers_unionAll fun e he => (hrows e he).ascending).includes hA.ordered (htails A hA) e' he'
  rw [← hs.entails_applyEffects hunion.within.1 A hA] at hincludes
  exact (Effects.includes_normalize hA.ordered _).trans hincludes

end State

namespace InferM

variable {s : State}

theorem keeps_equateTails (hs : s.Ready) (node : NodeId) {first : RowVarId} {others : List RowVarId}
    (hfirst : s.OwnsEffects (Effects.opened [] first)) (hothers : ∀ r ∈ others, s.OwnsEffects (Effects.opened [] r)) :
    Keeps (others.forM fun r => equateRows node .effectJoin (.openEffects [] first) (.openEffects [] r)) s
      fun _ s' => ∀ r ∈ others, s'.Entails fun A => A.row first = A.row r := by
  refine keeps_forM_each (R := fun r s' => s'.Entails fun A => A.row first = A.row r) hs (fun _ _ _ h => h.entails) fun r hr _ h hs' => ?_
  refine (keeps_equateRows hs' node _ (h.ownsEffects hfirst).toOwnsRow (h.ownsEffects (hothers r hr)).toOwnsRow).mono fun _ _ _ _ hequal A hA => ?_
  exact Row.row_of_openEffects hA.ordered (hequal A hA)

theorem keeps_joinEffects (hs : s.Ready) (node : NodeId) {rows : List Effects} (hrows : ∀ e ∈ rows, s.OwnsEffects e) :
    Keeps (joinEffects node rows) s fun e s' => s'.Joins e rows := by
  have happlied : ∀ e ∈ rows.map s.subst.applyEffects, s.OwnsEffects e :=
    List.forall_mem_map.mpr fun e he => (hrows e he).applyEffects hs
  have hmem {r : RowVarId} : r ∈ OrderedSet.ofList ((rows.map s.subst.applyEffects).filterMap Effects.tail) ↔
      ∃ e ∈ rows.map s.subst.applyEffects, e.tail = some r := by
    rw [OrderedSet.mem_ofList, List.mem_filterMap]
  -- The union has one tail, which means what all the tails mean by then.
  have hend {s' : State} (h : s.Leads s') (hs' : s'.Ready) (htails : s'.Entails fun A => ∀ r₁ r₂,
      r₁ ∈ OrderedSet.ofList ((rows.map s.subst.applyEffects).filterMap Effects.tail) →
        r₂ ∈ OrderedSet.ofList ((rows.map s.subst.applyEffects).filterMap Effects.tail) → A.row r₁ = A.row r₂) :
      Keeps (get >>= fun c : Context => pure (Effects.normalize (c.subst.applyEffects (Effects.unionAll (rows.map s.subst.applyEffects)))))
        s' fun e s' => s'.Joins e rows := by
    refine keeps_get (keeps_pure hs' (.of_applied hs h.toFollows hrows (State.joins_unionAll hs' ?_ ?_)))
    · exact fun e he => h.ownsEffects (happlied e he)
    · exact fun A hA e₁ he₁ e₂ he₂ r₁ r₂ hr₁ hr₂ => htails A hA r₁ r₂ (hmem.mpr ⟨e₁, he₁, hr₁⟩) (hmem.mpr ⟨e₂, he₂, hr₂⟩)
  apply keeps_get
  dsimp only
  split
  next first second others htails =>
    have hopened : ∀ r ∈ first :: second :: others, s.OwnsEffects (Effects.opened [] r) := fun r hr => by
      obtain ⟨e, he, htail⟩ := hmem.mp (htails ▸ hr)
      exact (happlied e he).opened_tail hs htail
    refine (keeps_equateTails hs node (hopened first List.mem_cons_self) fun r hr => hopened r (List.mem_cons_of_mem _ hr)).bind fun _ s₁ h₁ hs₁ hequal => ?_
    refine (keeps_flush hs₁).bind fun _ s₂ h₂ hs₂ _ => ?_
    refine hend (h₁.trans h₂) hs₂ fun A hA => ?_
    have hall : ∀ r ∈ first :: second :: others, A.row first = A.row r :=
      List.forall_mem_cons.mpr ⟨rfl, fun r hr => hequal r hr A (h₂.accepts hA)⟩
    rw [htails]
    exact fun r₁ r₂ hr₁ hr₂ => (hall r₁ hr₁).symm.trans (hall r₂ hr₂)
  next hfew =>
    refine hend (.refl s) hs fun A _ => ?_
    generalize OrderedSet.ofList ((rows.map s.subst.applyEffects).filterMap Effects.tail) = tails at hfew
    match tails, hfew with
    | [], _ => exact nofun
    | [r], _ => exact fun r₁ r₂ hr₁ hr₂ => by rw [List.mem_singleton.mp hr₁, List.mem_singleton.mp hr₂]
    | first :: second :: others, hfew => exact absurd rfl (hfew first second others)

theorem keeps_openLatentEffects (hs : s.Ready) {t : Ty} (ht : s.Owns t) :
    Keeps (openLatentEffects t) s fun t' s' => s'.Owns t' ∧ s'.Entails fun A => (t.value A).Supplies (t'.value A) := by
  cases t with
  | fn ps e r =>
      refine keeps_ite (fun _ => keeps_pure hs ⟨ht, fun _ _ => .inl rfl⟩) fun hclosed => ?_
      refine (keeps_freshRow hs none).bind fun w s₁ h₁ hs₁ hw => keeps_pure hs₁ ⟨?_, fun A hA => ?_⟩
      · have hfn := (State.inherited_owns s).fn ht
        exact State.owns_fn (fun p hp => h₁.owns (hfn.1 p hp)) (State.ownsEffects_opened hs₁ _ hw.1 hw.2) (h₁.owns hfn.2.2)
      · exact Ty.supplies_opened hA.ordered (by simpa using hclosed) w
  | _ => exact keeps_pure hs ⟨ht, fun _ _ => .inl rfl⟩

theorem keeps_checkSignature (hs : s.Ready) (node : NodeId) {body declared : Effects} (hbody : s.OwnsEffects body)
    (hdeclared : s.OwnsEffects declared) {names : List Label} (hnames : declared.BoundedBy names) :
    Keeps (checkSignature node body declared) s fun _ s' => s'.Entails fun A => (body.value A).BoundedBy names := by
  refine (keeps_flush hs).bind fun _ s₁ h₁ hs₁ _ => ?_
  have hbody₁ := h₁.ownsEffects hbody
  have hactual := hbody₁.applyEffects hs₁
  refine keeps_get (keeps_ite (fun _ => ?_) fun hopen => keeps_ite (fun _ => ?_) fun hsubsumed => keeps_pure hs₁ fun A hA => ?_)
  · refine (keeps_equateRows hs₁ node _ (h₁.ownsEffects hdeclared).toOwnsRow hactual.toOwnsRow).bind fun _ s₂ h₂ hs₂ hequal => ?_
    refine (keeps_flush hs₂).mono fun _ s₃ h₃ _ _ A hA => ?_
    have hA₂ := h₃.accepts hA
    have hvalue : declared.value A = body.value A :=
      (congrArg some (hequal A hA₂)).trans (hs₁.entails_applyEffects hbody₁.within.1 A (h₂.accepts hA₂))
    have hbounded := hnames.value hA.ordered
    rwa [hvalue] at hbounded
  · exact (keeps_report hs₁ _ _).mono fun _ _ _ _ hne => State.entails_of_errors hne
  · have hbounded := (Effects.boundedBy_of_subsumed hnames (by simpa using hopen) (by simpa using hsubsumed)).value hA.ordered
    rwa [hs₁.entails_applyEffects hbody₁.within.1 A hA] at hbounded

def Declares (session : Session) (node : NodeId) (body latent : Effects) (A : Assignment) : Prop :=
  ∀ names, session.signatures.find? node = some names → Effects.elaborate names = .ok latent ∧ (body.value A).BoundedBy names

theorem keeps_latentEffects (hs : s.Ready) (session : Session) (node : NodeId) {body : Effects} (hbody : s.OwnsEffects body) :
    Keeps (latentEffects session node body) s fun e s' => s'.OwnsEffects e ∧ s'.Entails (Declares session node body e) := by
  rw [latentEffects]
  split
  next hnone =>
    refine keeps_pure hs ⟨hbody, fun _ _ names hnames => ?_⟩
    rw [hnone] at hnames
    cases hnames
  next names hnames =>
    split
    next declared hdeclared =>
      have howns : s.OwnsEffects declared := by
        obtain ⟨-, rfl⟩ := Effects.elaborate_ok_iff.mp hdeclared
        split
        · exact State.ownsEffects_none hs
        · exact State.ownsEffects_closed hs names
      refine (keeps_checkSignature hs node hbody howns (Effects.boundedBy_elaborate hdeclared)).bind fun _ s₁ h₁ hs₁ hbounded =>
        keeps_pure hs₁ ⟨h₁.ownsEffects howns, fun A hA names' hnames' => ?_⟩
      obtain rfl := Option.some.inj (hnames.symm.trans hnames')
      exact ⟨hdeclared, hbounded A hA⟩
    next =>
      exact (keeps_report hs _ _).bind fun _ s₁ h₁ hs₁ hne => keeps_pure hs₁ ⟨h₁.ownsEffects hbody, State.entails_of_errors hne⟩

end InferM

end RowTyping
