import RowTyping.Infer.Boundary
import RowTyping.Proofs.Defaulting
import RowTyping.Proofs.Inference.Closing
import RowTyping.Proofs.Inference.Typed

namespace RowTyping

namespace Registry

structure Answers (e : Resolution) (k : ClassConstraint) : Prop where
  node : e.node = k.node
  className : e.className = k.className
  ty : e.ty = k.ty
  method : e.method = none
  ground : e.ty.isGround = true

variable {r : Registry} {k : ClassConstraint} {e : Resolution}

theorem resolve_ok (h : r.resolve k = .ok e) : Answers e k := by
  rw [resolve] at h
  split at h
  · cases h
  next hground =>
    split at h
    · cases h
    · cases h
      exact ⟨rfl, rfl, rfl, rfl, by simpa [ClassConstraint.isGround] using hground⟩

theorem resolve_of_ground (h : k.isGround = true) : (∃ e, r.resolve k = .ok e) ∨ ∃ d, r.resolve k = .error (.missing d) := by
  rw [resolve, h]
  cases r.find k.className k.ty with
  | error t => exact .inr ⟨_, rfl⟩
  | ok answer => exact .inl ⟨_, rfl⟩

end Registry

section Table

variable {t : ResolutionTable}

theorem ResolutionTable.mem_entries {e : Resolution} : e ∈ t.entries ↔ ∃ b ∈ t, e ∈ b.2 := by
  simp only [entries, OrderedMap.values, List.mem_flatten, List.mem_map]
  grind

theorem ResolutionTable.entries_of_get {node : NodeId} {e : Resolution} (h : e ∈ t.get node) : e ∈ t.entries := by
  rw [get] at h
  cases hfind : t.find? node with
  | none => rw [hfind] at h; cases h
  | some es =>
      rw [hfind] at h
      exact mem_entries.mpr ⟨_, OrderedMap.mem_of_find? hfind, h⟩

theorem ResolutionTable.apply_of_ground (h : ∀ e ∈ t.entries, e.ty.isGround = true) (s : Substitution) : t.apply s = t := by
  have hentry : ∀ b ∈ t, (b.2.map fun e : Resolution => { e with ty := s.apply e.ty }) = b.2 := by
    intro b hb
    refine (List.map_congr_left fun e he => ?_).trans b.2.map_id
    have hground := Ty.isGround_iff.mp (h e (mem_entries.mpr ⟨b, hb, he⟩))
    rw [s.apply_of_free fun v hv => absurd hv (hground v)]
    rfl
  exact (List.map_congr_left fun b hb => congrArg (b.1, ·) (hentry b hb)).trans t.map_id

theorem ResolutionTable.get_record (e : Resolution) (node : NodeId) :
    (∀ e' ∈ t.get node, e' ∈ (t.record e).get node) ∧
      ∃ e' ∈ (t.record e).get e.node, e'.className = e.className ∧ e'.ty = e.ty := by
  rw [record]
  split
  next hany =>
    obtain ⟨e', he', hsame⟩ := List.any_eq_true.mp hany
    exact ⟨fun _ h => h, e', he', by simpa using hsame⟩
  next =>
    have hget (node : NodeId) :
        ResolutionTable.get (OrderedMap.insert t e.node (t.get e.node ++ [e])) node = if node = e.node then t.get e.node ++ [e] else t.get node := by
      rw [get, OrderedMap.find?_insert]
      split <;> rfl
    constructor
    · intro e' he'
      rw [hget]
      split
      next heq => exact List.mem_append_left _ (heq ▸ he')
      next => exact he'
    · refine ⟨e, ?_, rfl, rfl⟩
      rw [hget, if_pos rfl]
      exact List.mem_append_right _ (List.mem_singleton_self e)

theorem ResolutionTable.mem_entries_record {e e' : Resolution} (h : e' ∈ (t.record e).entries) : e' = e ∨ e' ∈ t.entries := by
  rw [record] at h
  split at h
  · exact .inr h
  · obtain ⟨b, hb, he'⟩ := mem_entries.mp h
    rcases OrderedMap.mem_insert hb with rfl | hb
    · rcases List.mem_append.mp he' with he' | he'
      · exact .inr (entries_of_get he')
      · exact .inl (List.mem_singleton.mp he')
    · exact .inr (mem_entries.mpr ⟨b, hb, he'⟩)

end Table

namespace State

variable {s s' : State}

structure Supports (s : State) (session : Session) : Prop where
  encoding : ∀ φ ∈ s.layout, session.config.encoding = if φ.positional then .positional else .rows
  defaults : ∀ t, session.registry.IsDefault t → t.isGround = true ∧ s.Owns t

theorem Supports.rows {session : Session} (h : s.Supports session) (hrows : s.Rowed) : session.config.encoding = .rows := by
  obtain ⟨φ, hφ, hrows⟩ := hrows
  rw [h.encoding φ hφ, hrows, if_neg Bool.false_ne_true]

theorem Follows.supports {session : Session} (h : s.Follows s') (hs : s.Supports session) : s'.Supports session := by
  refine ⟨fun φ' hφ' => ?_, fun t ht => ⟨(hs.defaults t ht).1, h.owns (hs.defaults t ht).2⟩⟩
  obtain ⟨φ, hφ, hagree⟩ := h.agrees hφ'
  rw [hagree.positional]
  exact hs.encoding φ hφ

def withSubst (s : State) (σ : Substitution) : State :=
  ⟨{ s.context with unifier := { s.context.unifier with subst := σ } }, s.layout⟩

variable {v : TypeVarId} {t : Ty}

theorem Leads.bindGround (hv : ¬ s.subst.Binds (.type v)) : s.Leads (s.withSubst (s.subst.bindType v t)) :=
  .of_follows ⟨fun _ hv => hv, Substitution.extends_bindType hv, rel_refl _ _, fun h => h, fun _ hA => hA.equations,
    fun _ _ he => he⟩ rfl

theorem Ready.bindGround (hs : s.Ready) (hv : ¬ s.subst.Binds (.type v)) (hcovers : s.supply.Covers (.type v))
    (hground : t.isGround = true) (ht : s.Owns t) : (s.withSubst (s.subst.bindType v t)).Ready := by
  have hfree := Ty.isGround_iff.mp hground
  have leads : s.Leads (s.withSubst (s.subst.bindType v t)) := .bindGround hv
  refine ⟨⟨hs.unifier.chainless.bindType (hfree _) fun w hw => ?_, fun x hx => ?_, Substitution.All.bindType hs.unifier.within ht.within⟩,
    hs.records, fun φ hφ => (hs.conforms φ hφ).bindType (ht.conforms φ hφ), fun φ hφ => (hs.shaped φ hφ).bindType (ht.shaped φ hφ),
    fun q hq => leads.ownsGoal (hs.equations q hq), hs.classes, hs.resolved⟩
  · exact absurd (hw ▸ Ty.mem_vars_var.mpr rfl) (hfree (.type w.id))
  · rcases Substitution.binds_bindType.mp hx with rfl | hx
    · exact hcovers
    · exact hs.unifier.covers x hx

end State

namespace InferM

variable {s : State}

theorem keeps_applyClasses (hs : s.Ready) : Keeps (modify Context.applyClasses) s fun _ _ => True := by
  have follows := State.Follows.withClasses s (s.context.classes.map (ClassConstraint.mapTy s.context.apply))
  refine ⟨s.layout, ⟨follows, s.context.apply, [], (Scopes.append_nil _).symm, fun t ht => hs.unifier.within.apply ht,
    fun t ht A hA => hs.same_apply ht A (follows.accepts hA)⟩, hs.withClasses fun k hk => ?_, trivial⟩
  rw [Scopes.toList_map] at hk
  obtain ⟨k, hmem, rfl⟩ := List.mem_map.mp hk
  exact hs.unifier.within.apply (hs.classes k hmem)

theorem keeps_solve (hs : s.Ready) : Keeps solve s fun _ _ => True :=
  (keeps_flush hs).bind fun _ _ _ hs₁ _ => keeps_applyClasses hs₁

theorem keeps_applyResolved (hs : s.Ready) : Keeps (modify Context.applyResolved) s fun _ _ => True :=
  keeps_alike hs ⟨rfl, rfl, rfl, ResolutionTable.apply_of_ground hs.resolved _⟩

theorem keeps_bindDefault (hs : s.Ready) {v : TypeVarId} {t : Ty} (hground : t.isGround = true) (ht : s.Owns t)
    (hv : s.supply.Covers (.type v)) : Keeps (modify (Context.bindDefault v t)) s fun _ _ => True := by
  by_cases hnone : (s.subst.lookupType v).isNone = true
  · have hunbound : ¬ s.subst.Binds (.type v) := by
      rintro ⟨t', ht'⟩
      rw [ht'] at hnone
      cases hnone
    have hbind : s.context.bindDefault v t = (s.withSubst (s.subst.bindType v t)).context :=
      congrArg (fun unifier => { s.context with unifier }) (if_pos hnone)
    refine ⟨s.layout, ?_, ?_, trivial⟩
    · change s.Leads ⟨s.context.bindDefault v t, s.layout⟩
      rw [hbind]
      exact .bindGround hunbound
    · change State.Ready ⟨s.context.bindDefault v t, s.layout⟩
      rw [hbind]
      exact hs.bindGround hunbound hv hground ht
  · have hbind : s.context.bindDefault v t = s.context :=
      congrArg (fun unifier => { s.context with unifier }) (if_neg hnone)
    apply keeps_alike hs
    rw [hbind]
    exact ⟨rfl, rfl, rfl, rfl⟩

theorem keeps_applyDefaults (hs : s.Ready) {defaults : Substitution}
    (h : ∀ e ∈ defaults.types, (e.2.isGround = true ∧ s.Owns e.2) ∧ s.supply.Covers (.type e.1)) :
    Keeps (applyDefaults defaults) s fun _ _ => True := by
  refine keeps_ite (fun _ => keeps_pure hs trivial) fun _ => ?_
  have hbinds : Keeps (defaults.types.forM fun e => modify (Context.bindDefault e.1 e.2)) s fun _ _ => True := by
    refine keeps_forM hs fun e he s₁ h₁ hs₁ => ?_
    obtain ⟨⟨hground, howns⟩, hcovers⟩ := h e he
    exact keeps_bindDefault hs₁ hground (h₁.owns howns) (h₁.covers _ hcovers)
  refine hbinds.bind fun _ s₁ _ hs₁ _ => ?_
  exact (keeps_applyClasses hs₁).bind fun _ s₂ _ hs₂ _ => keeps_applyResolved hs₂

theorem keeps_applyOutcome (hs : s.Ready) {session : Session} (hsupports : s.Supports session) (node : NodeId) (monotype : Ty)
    {ks : List ClassConstraint} {out : DefaultingOutcome} (hout : Defaulting.Sound session.registry ks out)
    (hks : ∀ k ∈ ks, k.ty.Within s.supply) :
    Keeps (applyOutcome node monotype out) s fun _ s' => s'.context.errors = [] → out.rejected = [] := by
  refine (keeps_alike (g := Context.logAll out.events) hs ⟨rfl, rfl, rfl, rfl⟩).bind fun _ s₁ h₁ hs₁ _ => ?_
  have hreport : Keeps (out.errors.forM (report node)) s₁ fun _ s' => s'.context.errors = [] → out.rejected = [] := by
    cases herrors : out.errors with
    | nil => exact keeps_pure hs₁ fun _ => hout.rejected herrors
    | cons d ds =>
        refine (keeps_report hs₁ node d).bind fun _ s₂ h₂ hs₂ hne => ?_
        refine (keeps_forM hs₂ fun d' _ s₃ _ hs₃ => (keeps_report hs₃ node d').mono fun _ _ _ _ _ => trivial).mono ?_
        exact fun _ s₃ h₃ _ _ h => absurd (h₃.errors h) hne
  refine hreport.bind fun _ s₂ h₂ hs₂ hrejected => ?_
  have hdefaults {s₃ : State} (h : s₂.Leads s₃) (hs₃ : s₃.Ready) :
      Keeps (applyDefaults out.subst) s₃ fun _ s' => s'.context.errors = [] → out.rejected = [] := by
    have hfollows := (h₁.trans h₂).trans h
    refine (keeps_applyDefaults hs₃ fun e he => ?_).mono fun _ s₄ h₄ _ _ herrors => hrejected (h.errors (h₄.errors herrors))
    obtain ⟨hdefault, k, hk, hv⟩ := hout.binds e he
    exact ⟨(hfollows.supports hsupports).defaults _ hdefault, hfollows.covers _ ((hks k hk).2 _ hv)⟩
  refine keeps_ite (fun _ => ?_) fun _ => hdefaults (.refl s₂) hs₂
  exact (keeps_note hs₂ _ _ _).bind fun _ s₃ h₃ hs₃ _ => hdefaults h₃ hs₃

theorem keeps_record (hs : s.Ready) {e : Resolution} (he : e.ty.isGround = true) :
    Keeps (modify fun c : Context => { c with resolved := c.resolved.record e }) s fun _ s' =>
      s'.Recorded e.node e.className e.ty := by
  have follows : s.Follows ⟨{ s.context with resolved := s.context.resolved.record e }, s.layout⟩ :=
    ⟨fun _ hv => hv, .refl _, State.rel_refl _ _, fun h => h, fun _ hA => hA.equations,
      fun node => (s.context.resolved.get_record e node).1⟩
  refine ⟨s.layout, .of_follows follows rfl, ⟨⟨hs.unifier.chainless, hs.unifier.covers, hs.unifier.within⟩, hs.records, hs.conforms,
    hs.shaped, fun q hq => follows.ownsGoal (hs.equations q hq), hs.classes, fun e' he' => ?_⟩, ?_⟩
  · rcases ResolutionTable.mem_entries_record he' with rfl | he'
    · exact he
    · exact hs.resolved e' he'
  · obtain ⟨e', he', hname, hty⟩ := (s.context.resolved.get_record e e.node).2
    exact ⟨e', he', hname, fun A _ => hty ▸ rfl⟩

def Resolves (s : State) (pending : List ClassConstraint) (k : ClassConstraint) : Prop :=
  k ∈ pending ∨ (k.origin = .operator → s.context.errors = [] → s.Recorded k.node k.className k.ty)

theorem keeps_resolveGround (hs : s.Ready) (r : Registry) {rejected : List TypeVarId} (reported : List (String × String))
    (ks : List ClassConstraint) (hrejected : s.context.errors = [] → rejected = []) (hreported : s.context.errors = [] → reported = []) :
    Keeps (resolveGround r rejected reported ks) s fun pending s' => (∀ k ∈ pending, k ∈ ks) ∧ ∀ k ∈ ks, Resolves s' pending k := by
  induction ks generalizing s reported with
  | nil => exact keeps_pure hs ⟨fun _ h => h, List.forall_mem_nil _⟩
  | cons k ks ih =>
      have hrest {s' : State} {reported : List (String × String)} (h : s.Leads s') (hs' : s'.Ready)
          (hreported : s'.context.errors = [] → reported = [])
          (hk : k.origin = .operator → s'.context.errors = [] → s'.Recorded k.node k.className k.ty) :
          Keeps (resolveGround r rejected reported ks) s' fun pending s' => (∀ k' ∈ pending, k' ∈ k :: ks) ∧
            ∀ k' ∈ k :: ks, Resolves s' pending k' := by
        refine (ih hs' reported (fun herrors => hrejected (h.errors herrors)) hreported).mono fun pending s₂ h₂ _ hpending => ?_
        refine ⟨fun k' hk' => List.mem_cons_of_mem _ (hpending.1 k' hk'), List.forall_mem_cons.mpr ⟨?_, hpending.2⟩⟩
        exact .inr fun horigin herrors => h₂.recorded (hk horigin (h₂.errors herrors))
      rw [resolveGround]
      refine keeps_ite (fun hany => ?_) fun _ => keeps_ite (fun _ => ?_) fun hground => ?_
      · refine hrest (.refl s) hs hreported fun _ herrors => ?_
        rw [hrejected herrors] at hany
        simp at hany
      · refine (ih hs reported hrejected hreported).bind fun pending s₁ h₁ hs₁ hpending => keeps_pure hs₁ ⟨?_, ?_⟩
        · exact List.forall_mem_cons.mpr ⟨List.mem_cons_self, fun k' hk' => List.mem_cons_of_mem _ (hpending.1 k' hk')⟩
        · refine List.forall_mem_cons.mpr ⟨.inl List.mem_cons_self, fun k' hk' => ?_⟩
          exact (hpending.2 k' hk').imp_left (List.mem_cons_of_mem _)
      · have hground : k.ty.isGround = true := by simpa [ClassConstraint.isGround] using hground
        split
        next e he =>
          have hentry := Registry.resolve_ok he
          refine (keeps_alike (g := Context.log e.event) hs ⟨rfl, rfl, rfl, rfl⟩).bind fun _ s₁ h₁ hs₁ _ => ?_
          refine (keeps_note hs₁ _ _ _).bind fun _ s₂ h₂ hs₂ _ => keeps_ite (fun _ => ?_) fun horigin => ?_
          · refine (keeps_record hs₂ hentry.ground).bind fun _ s₃ h₃ hs₃ hrecorded => ?_
            have h := (h₁.trans h₂).trans h₃
            refine hrest h hs₃ (fun herrors => hreported (h.errors herrors)) fun _ _ => ?_
            rwa [hentry.node, hentry.className, hentry.ty] at hrecorded
          · have h := h₁.trans h₂
            refine hrest h hs₂ (fun herrors => hreported (h.errors herrors)) fun hoperator => ?_
            rw [hoperator] at horigin
            exact absurd (by decide) horigin
        next d _ =>
          refine keeps_ite (fun hseen => ?_) fun _ => ?_
          · refine hrest (.refl s) hs hreported fun _ herrors => ?_
            rw [hreported herrors] at hseen
            cases hseen
          · refine (keeps_report hs _ _).bind fun _ s₁ h₁ hs₁ hne => ?_
            exact hrest h₁ hs₁ (fun herrors => absurd herrors hne) fun _ herrors => absurd herrors hne
        next v he =>
          rcases r.resolve_of_ground hground with ⟨e, hok⟩ | ⟨d, hmissing⟩
          · rw [hok] at he
            cases he
          · rw [hmissing] at he
            cases he

end InferM

end RowTyping
