import RowTyping.Proofs.Inference.Resolving

namespace RowTyping

namespace State

variable {s s' : State}

def opened (s : State) : State :=
  ⟨s.context.pushClassScope, s.layout⟩

theorem Follows.opened (s : State) : s.Follows s.opened :=
  .withClasses s _

theorem Ready.opened (hs : s.Ready) : s.opened.Ready :=
  hs.withClasses fun k hk => hs.classes k (Scopes.toList_pushScope s.context.classes ▸ hk)

def taken (s : State) : State :=
  ⟨{ s.context with classes := s.context.classes.takeScope.2 }, s.layout⟩

theorem Ready.taken (hs : s.Ready) : s.taken.Ready :=
  hs.withClasses fun k hk => hs.classes k (Scopes.mem_takeScope.mpr (.inr hk))

theorem Follows.taken (s : State) : s.Follows s.taken :=
  .withClasses s _

theorem Leads.taken (h : s.opened.Leads s') :
    s.Leads s'.taken ∧ ∃ g, s'.taken.context.classes = s.context.classes.map (ClassConstraint.mapTy g) := by
  obtain ⟨hfollows, g, ks, hclasses, hcarries⟩ := h
  have hscope : s'.taken.context.classes = s.context.classes.map (ClassConstraint.mapTy g) := by
    have hopened : s.opened.context.classes = s.context.classes.pushScope := rfl
    change s'.context.classes.takeScope.2 = _
    rw [hclasses, hopened, Scopes.map_pushScope, Scopes.takeScope_append_pushScope]
  refine ⟨⟨((Follows.opened s).trans hfollows).trans (.taken s'), g, [], ?_, hcarries.within, fun t ht A hA => ?_⟩, g, hscope⟩
  · rw [Scopes.append_nil]
    exact hscope
  · exact hcarries.value t ht A ((Follows.taken s').accepts hA)

end State

namespace InferM

variable {α β : Type} {s s₁ : State} {Q : α → State → Prop} {Q' : β → State → Prop}

def Closes (m : InferM α) (s s₁ : State) (Q : α → State → Prop) : Prop :=
  ∃ l : Option Layout, s.Leads ⟨(m.run s₁.context).2, l⟩ ∧ State.Ready ⟨(m.run s₁.context).2, l⟩ ∧
    Q (m.run s₁.context).1 ⟨(m.run s₁.context).2, l⟩

theorem keeps_boundary {m : InferM α} (h : Closes m s s.opened Q) : Keeps (modify Context.pushClassScope >>= fun _ => m) s Q := h

theorem Keeps.closes {m : InferM β} {f : β → InferM α} (hm : Keeps m s₁ Q')
    (hf : ∀ b s₂, s₁.Leads s₂ → s₂.Ready → Q' b s₂ → Closes (f b) s s₂ Q) : Closes (m >>= f) s s₁ Q := by
  obtain ⟨l, hleads, hready, hQ⟩ := hm
  exact hf _ _ hleads hready hQ

theorem closes_get {f : Context → InferM α} (h : Closes (f s₁.context) s s₁ Q) : Closes (get >>= f) s s₁ Q := h

theorem Closes.bind {m : InferM α} {f : α → InferM β} (hm : Closes m s s₁ Q)
    (hf : ∀ a s₂, s.Leads s₂ → s₂.Ready → Q a s₂ → Keeps (f a) s₂ Q') : Closes (m >>= f) s s₁ Q' := by
  obtain ⟨l, hleads, hready, hQ⟩ := hm
  obtain ⟨l', hleads', hready', hQ'⟩ := hf _ _ hleads hready hQ
  exact ⟨l', hleads.trans hleads', hready', hQ'⟩

theorem closes_takeClassScope {f : List ClassConstraint → InferM α} (h₁ : s.opened.Leads s₁)
    (hf : Keeps (f s₁.context.classes.takeScope.1) s₁.taken Q) : Closes (takeClassScope >>= f) s s₁ Q := by
  obtain ⟨l, hleads, hready, hQ⟩ := hf
  exact ⟨l, h₁.taken.1.trans hleads, hready, hQ⟩

theorem keeps_closeResultEffects (hs : s.Ready) (node : NodeId) {ts : List Ty} (hts : ∀ t ∈ ts, s.Owns t)
    (envRowVars : List RowVarId) : Keeps (closeResultEffects node ts envRowVars) s fun _ _ => True := by
  apply keeps_get
  refine keeps_ite (fun _ => keeps_pure hs trivial) fun _ => ?_
  refine (keeps_forM hs fun r hr s' h hs' => ?_).bind fun _ s₁ _ hs₁ _ => (keeps_flush hs₁).mono fun _ _ _ _ _ => trivial
  obtain ⟨t, ht, htail⟩ := List.mem_filterMap.mp (List.mem_of_mem_filter hr)
  obtain ⟨t, hmem, rfl⟩ := List.mem_map.mp ht
  have howns : s.Owns (s.context.apply t) := (hts t hmem).apply hs
  generalize s.context.apply t = t at howns htail
  cases t with
  | fn ps e r' =>
      have htail : Effects.tail e = some r := htail
      have hopened := (State.ownsEffects_latent howns).opened_tail hs htail
      exact (keeps_equateRows hs' node _ (State.ownsEffects_closed hs' []).toOwnsRow (h.ownsEffects hopened).toOwnsRow).mono
        fun _ _ _ _ _ => trivial
  | _ => cases htail

theorem keeps_schemes (hs : s.Ready) (node : NodeId) (envTypeVars : List TypeVarId) (envRowVars : List RowVarId)
    (pending : List ClassConstraint) (ts : List Ty) :
    Keeps (ts.mapM (schemeOf node envTypeVars envRowVars pending)) s fun _ _ => True := by
  refine (keeps_mapM (R := fun _ _ _ => True) hs (fun _ _ _ _ _ h => h) fun t _ s' _ hs' => ?_).mono fun _ _ _ _ _ => trivial
  refine (keeps_alike (g := Context.log _) hs' ⟨rfl, rfl, rfl, rfl⟩).bind fun _ s₁ _ hs₁ _ => ?_
  exact (keeps_note hs₁ _ _ _).bind fun _ s₂ _ hs₂ _ => keeps_pure hs₂ trivial

theorem keeps_reportUnsolved (hs : s.Ready) (seen : List (String × String)) (ks : List ClassConstraint) :
    Keeps (reportUnsolved seen ks) s fun _ _ => True := by
  induction ks generalizing s seen with
  | nil => exact keeps_pure hs trivial
  | cons k ks ih =>
      rw [reportUnsolved]
      refine keeps_ite (fun _ => ih hs seen) fun _ => ?_
      exact (keeps_report hs _ _).bind fun _ s₁ _ hs₁ _ => ih hs₁ _

structure Settled (session : Session) (s s₁ : State) (ts : List Ty) (cl : Closing) (s₂ : State) : Prop where
  types : ∀ t ∈ cl.types, s₂.Owns t
  length : cl.types.length = ts.length
  pending : ∀ k ∈ cl.pending, k.ty.Within s₂.supply
  classes : ∃ g, s₂.context.classes = s.context.classes.map (ClassConstraint.mapTy g)
  taken : ∃ s', s₁.Leads s' ∧ s'.Ready ∧ s'.taken.Leads s₂ ∧
    ∀ k ∈ s'.context.classes.takeScope.1, Resolves s₂ cl.pending k

theorem closes_closing {session : Session} (h₁ : s.opened.Leads s₁) (hs₁ : s₁.Ready) (hsupports : s₁.Supports session) (env : Env)
    (node : NodeId) {ts : List Ty} (hts : ∀ t ∈ ts, s₁.Owns t) (level : BindingLevel) (generalizable : Bool) :
    Closes (closing session env node ts level generalizable) s s₁ (Settled session s s₁ ts) := by
  refine (keeps_solve hs₁).closes fun _ s₂ h₂ hs₂ _ => closes_get ?_
  refine (keeps_closeResultEffects hs₂ node (fun t ht => h₂.owns (hts t ht)) _).closes fun _ s₃ h₃ hs₃ _ => closes_get ?_
  have hsound := Defaulting.sound_defaultConstraints (r := session.registry) (Ty.tuple (ts.map s₃.context.apply))
    s₂.context.classes.innermost (env.freeTypeVars s₂.context.subst)
    (if level = .topLevel ∧ !generalizable then .topLevel else .boundary)
  have hks : ∀ k ∈ s₂.context.classes.innermost, k.ty.Within s₃.supply := fun k hk =>
    (hs₂.classes k (Scopes.mem_toList_of_innermost hk)).mono h₃.covers
  refine (keeps_applyOutcome hs₃ ((h₂.trans h₃).supports hsupports) node _ hsound hks).closes fun _ s₄ h₄ hs₄ hrejected => ?_
  have h := (h₂.trans h₃).trans h₄
  have hclose := State.Leads.taken (h₁.trans h)
  refine closes_takeClassScope (h₁.trans h) (keeps_get ?_)
  have htypes : ∀ t ∈ ts.map s₄.taken.context.apply, s₄.taken.Owns t := List.forall_mem_map.mpr fun t ht =>
    ((State.Follows.taken s₄).owns (h.owns (hts t ht))).apply hs₄.taken
  have hrun := (keeps_resolveGround hs₄.taken session.registry [] s₄.context.classes.takeScope.1 hrejected fun _ => rfl).and_ensures (resolveGround_pending ..)
  refine hrun.bind fun pending s₅ h₅ hs₅ hpending => keeps_pure hs₅ ⟨fun t ht => h₅.owns (htypes t ht), by simp, fun k hk => ?_, ?_, ?_⟩
  · exact (hs₄.classes k (Scopes.mem_takeScope.mpr (.inl (hpending.1.1 k hk)))).mono h₅.covers
  · obtain ⟨g, hg⟩ := hclose.2
    exact ⟨g, hpending.2.2.trans hg⟩
  · exact ⟨s₄, h, hs₄, h₅, hpending.1.2⟩

def Places (s : State) (schemes : List Scheme) (k : ClassConstraint) : Prop :=
  k.origin = .operator → s.context.errors = [] →
    k ∈ s.context.classes.toList ∨ ∃ scheme ∈ schemes, ⟨k.className, k.ty⟩ ∈ scheme.predicates

structure Concluded (level : BindingLevel) (generalizable : Bool) (s : State) (cl : Closing) (schemes : List Scheme)
    (s' : State) : Prop where
  owned : ∀ scheme ∈ schemes, s'.OwnsScheme scheme
  plain : generalizable = false → ∀ scheme ∈ schemes, scheme.predicates = []
  length : schemes.length = cl.types.length
  places : ∀ k ∈ cl.pending, Places s' schemes k
  classes : level = .topLevel → s'.context.classes = s.context.classes

theorem keeps_dispose (hs : s.Ready) (level : BindingLevel) (ks : List ClassConstraint) (hks : ∀ k ∈ ks, k.ty.Within s.supply) :
    Keeps (dispose level ks) s fun _ s' => (∀ k ∈ ks, s'.context.errors = [] → k ∈ s'.context.classes.toList) ∧
      (level = .topLevel → s'.context.classes = s.context.classes) := by
  cases level with
  | nested => exact (keeps_deferClasses hs hks).mono fun _ s' _ _ h => ⟨fun k hk _ => h k hk, nofun⟩
  | topLevel =>
      refine ((keeps_reportUnsolved hs [] ks).and_ensures (reportUnsolved_errors [] ks)).mono ?_
      rintro _ s' - - ⟨-, hclasses, ds, hds, -, hall⟩
      refine ⟨fun k hk herrors => ?_, fun _ => hclasses⟩
      rcases hall k hk with hseen | ⟨d, hd, -⟩
      · cases hseen
      · rw [List.append_eq_nil_iff.mp (hds.symm.trans herrors) |>.2] at hd
        cases hd

theorem ownsScheme_generalize {t : Ty} (ht : s.Owns t) {pending : List ClassConstraint}
    (hpending : ∀ k ∈ pending, k.ty.Within s.supply) (quantified envTypeVars : List TypeVarId) (envRowVars : List RowVarId) :
    s.OwnsScheme (t.generalize (attached quantified pending) envTypeVars envRowVars) where
  ty := ht
  predicates p hp := by
    obtain ⟨k, hk, -, rfl⟩ := mem_attached.mp hp
    exact hpending k hk
  rowVars r hr := by
    have hfree : r ∈ t.rowVars := (OrderedSet.mem_diff.mp (Ty.mem_rowVars_generalize.mp hr)).1
    exact ht.within.2 _ (Ty.mem_rowVars_iff.mp hfree)

theorem keeps_conclude (hs : s.Ready) (node : NodeId) (level : BindingLevel) (generalizable : Bool) {cl : Closing}
    (htypes : ∀ t ∈ cl.types, s.Owns t) (hpending : ∀ k ∈ cl.pending, k.ty.Within s.supply) :
    Keeps (conclude node level generalizable cl) s (Concluded level generalizable s cl) := by
  cases generalizable with
  | false =>
      have hdispose := keeps_dispose hs level (cl.pending.filter fun k => !(false && cl.types.any fun t =>
        attaches (OrderedSet.diff t.typeVars cl.envTypeVars) k)) fun k hk => hpending k (List.mem_of_mem_filter hk)
      refine hdispose.bind (f := fun _ => pure (cl.types.map Scheme.mono)) fun _ s₁ h₁ hs₁ hdispose => ?_
      refine keeps_pure hs₁ ⟨List.forall_mem_map.mpr fun t ht => State.ownsScheme_mono (h₁.owns (htypes t ht)),
        fun _ => List.forall_mem_map.mpr fun _ _ => rfl, by simp, fun k hk _ herrors => .inl (hdispose.1 k ?_ herrors), hdispose.2⟩
      exact List.mem_filter.mpr ⟨hk, rfl⟩
  | true =>
      refine ((keeps_schemes hs node _ _ cl.pending cl.types).and_ensures (mapM_schemeOf ..)).bind ?_
      rintro schemes s₁ h₁ hs₁ ⟨-, rfl, hclasses, -⟩
      refine (keeps_dispose hs₁ level _ fun k hk => (hpending k (List.mem_of_mem_filter hk)).mono h₁.covers).bind fun _ s₂ h₂ hs₂ hdispose => ?_
      refine keeps_pure hs₂ ⟨List.forall_mem_map.mpr fun t ht => ?_, nofun, by simp, fun k hk _ herrors => ?_, fun h => (hdispose.2 h).trans hclasses⟩
      · have h := h₁.trans h₂
        exact ownsScheme_generalize (h.owns (htypes t ht)) (fun k hk => (hpending k hk).mono h.covers) _ _ _
      · by_cases hany : (cl.types.any fun t => attaches (OrderedSet.diff t.typeVars cl.envTypeVars) k) = true
        · obtain ⟨t, ht, hattaches⟩ := List.any_eq_true.mp hany
          exact .inr ⟨_, List.mem_map_of_mem ht, (mem_attached_of_pending hk).mpr hattaches⟩
        · exact .inl (hdispose.1 k (List.mem_filter.mpr ⟨hk, by simpa using hany⟩) herrors)

structure Closed (session : Session) (level : BindingLevel) (generalizable : Bool) (s s₁ : State) (ts : List Ty) (schemes : List Scheme)
    (s' : State) : Prop where
  owned : ∀ scheme ∈ schemes, s'.OwnsScheme scheme
  plain : generalizable = false → ∀ scheme ∈ schemes, scheme.predicates = []
  length : schemes.length = ts.length
  top : level = .topLevel → s.context.classes.toList = [] → s'.context.classes.toList = []
  follows : s₁.Follows s'
  typed : ∀ (sites : Sites) (group : List TypedBinding), group.map TypedBinding.scheme = schemes → ∀ e, s₁.Typed session sites [] e → s'.Typed session sites group e

theorem closes_closeBoundary {session : Session} (h₁ : s.opened.Leads s₁) (hs₁ : s₁.Ready) (hsupports : s₁.Supports session)
    (env : Env) (node : NodeId) {ts : List Ty} (hts : ∀ t ∈ ts, s₁.Owns t) (level : BindingLevel) (generalizable : Bool) :
    Closes (closeBoundary session env node ts level generalizable) s s₁ (Closed session level generalizable s s₁ ts) := by
  rw [closeBoundary_eq]
  refine (closes_closing h₁ hs₁ hsupports env node hts level generalizable).bind fun cl s₂ h₂ hs₂ hcl => ?_
  refine (keeps_conclude hs₂ node level generalizable hcl.types hcl.pending).mono fun schemes s₃ h₃ hs₃ hconcluded => ?_
  obtain ⟨s', hs₁', hs', htaken, hresolves⟩ := hcl.taken
  have hfollows : s'.Follows s₃ := (State.Follows.taken s').trans (htaken.trans h₃).toFollows
  refine ⟨hconcluded.owned, hconcluded.plain, hconcluded.length.trans hcl.length, fun htop hnil => ?_, hs₁'.toFollows.trans hfollows, ?_⟩
  · obtain ⟨g, hg⟩ := hcl.classes
    rw [hconcluded.classes htop, hg, Scopes.toList_map, hnil, List.map_nil]
  · rintro sites group rfl e he
    have he' := hs₁'.typed hs₁ he
    refine ⟨fun n hn => hfollows.nodeTyped (he'.nodes n hn), fun n hn d hd herrors => ?_⟩
    obtain ⟨className, hclass, hcases⟩ := he'.accounted n hn d hd (hfollows.errors herrors)
    refine ⟨className, hclass, ?_⟩
    rcases hcases with ⟨k, hk, hname, hnode, horigin, hsame⟩ | hr | hb | ⟨_, hb, _⟩
    · have hsame₃ := hfollows.same hsame
      rcases Scopes.mem_takeScope.mp hk with hk | hk
      · rcases hresolves k hk with hpending | hrecorded
        · rcases hconcluded.places k hpending horigin herrors with hk | ⟨scheme, hscheme, hp⟩
          · exact .inl ⟨k, hk, hname, hnode, horigin, hsame₃⟩
          · obtain ⟨b, hb, rfl⟩ := List.mem_map.mp hscheme
            exact .inr (.inr (.inr ⟨b, hb, _, hp, hname, hsame₃⟩))
        · obtain ⟨r, hr, hrname, hrsame⟩ := h₃.recorded (hrecorded horigin (h₃.errors herrors))
          exact .inr (.inl ⟨r, hnode ▸ hr, hrname.trans hname, hrsame.trans hsame₃⟩)
      · exact .inl ((htaken.trans h₃).pending hs'.taken ⟨k, hk, hname, hnode, horigin, (State.Follows.taken s').same hsame⟩)
    · exact .inr (.inl (hfollows.recorded hr))
    · exact .inr (.inr (.inl (hfollows.enclosed hb)))
    · cases hb

end InferM

end RowTyping
