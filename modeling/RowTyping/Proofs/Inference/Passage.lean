import RowTyping.Proofs.Inference.Boundary
import RowTyping.Proofs.Inference.Demands
import RowTyping.Proofs.Inference.Idle

namespace RowTyping

theorem ResolutionTable.mem_get_record {t : ResolutionTable} {e e' : Resolution} {node : NodeId} (h : e' ∈ (t.record e).get node) :
    e' ∈ t.get node ∨ node = e.node ∧ e' = e := by
  rw [record] at h
  split at h
  · exact .inl h
  · rw [get, OrderedMap.find?_insert] at h
    split at h
    next hnode =>
      rcases List.mem_append.mp h with h | h
      · exact .inl (hnode ▸ h)
      · exact .inr ⟨hnode, List.mem_singleton.mp h⟩
    next => exact .inl h

namespace Context

variable {c c₁ c' : Context} {ks ks' : List ClassConstraint} {k : ClassConstraint}

theorem Idle.calm (h : Idle c c') : c.Calm c' := by
  cases h with
  | flush => exact c.calm_flush
  | literal className t node =>
      exact fun i p hp => (c.raises_addClass className t node .literal i p hp).resolve_right fun h => absurd rfl h.1
  | _ => exact .of_eq rfl rfl

structure Passes (ks : List ClassConstraint) (c c' : Context) : Prop where
  subst : c'.subst = c.subst
  raises : c.Raises (fun node p => ∃ k ∈ ks, k.Asks node p) c'

theorem Passes.of_eq (ks : List ClassConstraint) (hsubst : c'.subst = c.subst) (hclasses : c'.classes = c.classes)
    (hresolved : c'.resolved = c.resolved) : Passes ks c c' :=
  ⟨hsubst, fun node p hp => .inl (Calm.of_eq hclasses hresolved node p hp)⟩

theorem Passes.mono (h : Passes ks c c') (hks : ∀ k ∈ ks, k ∈ ks') : Passes ks' c c' :=
  ⟨h.subst, fun node p hp => (h.raises node p hp).imp_right fun ⟨k, hk, hasks⟩ => ⟨k, hks k hk, hasks⟩⟩

theorem Passes.trans (h : Passes ks c c₁) (h' : Passes ks c₁ c') : Passes ks c c' :=
  ⟨h'.subst.trans h.subst, fun node p hp => (h'.raises node p hp).elim (h.raises node p) .inr⟩

theorem passes_record {e : Resolution} (he : Registry.Answers e k) (hk : k ∈ ks) (horigin : k.origin ≠ .literal) :
    Passes ks c { c with resolved := c.resolved.record e } := by
  refine ⟨rfl, ?_⟩
  rintro node p (hwaits | ⟨r, hr, rfl⟩)
  · exact .inl (.inl hwaits)
  · rcases ResolutionTable.mem_get_record hr with hr | ⟨rfl, rfl⟩
    · exact .inl (.inr ⟨r, hr, rfl⟩)
    · exact .inr ⟨k, hk, horigin, he.node.symm, by rw [he.className, he.ty]⟩

theorem passes_deferClasses (c : Context) (ks : List ClassConstraint) : Passes ks c (c.deferClasses ks) := by
  refine ⟨rfl, ?_⟩
  rintro node p (⟨k, hk, hasks⟩ | hr)
  · have hk : k ∈ (c.classes.append ks).toList := hk
    rw [Scopes.toList_append] at hk
    exact (List.mem_append.mp hk).imp (fun hk => .inl ⟨k, hk, hasks⟩) fun hk => ⟨k, hk, hasks⟩
  · exact .inl (.inr hr)

theorem Passes.calm (h : Passes c.classes.takeScope.1 { c with classes := c.classes.takeScope.2 } c') : c.Calm c' := by
  intro node p hp
  rcases h.raises node p hp with (⟨k, hk, hasks⟩ | hr) | ⟨k, hk, hasks⟩
  · exact .inl ⟨k, Scopes.mem_takeScope.mpr (.inr hk), hasks⟩
  · exact .inr hr
  · exact .inl ⟨k, Scopes.mem_takeScope.mpr (.inl hk), hasks⟩

end Context

namespace State

variable {s : State} {l : Option Layout}

theorem traces_mapClasses (hs : s.Ready) {c' : Context} (hclasses : c'.classes = s.context.classes.map (ClassConstraint.mapTy c'.subst.apply))
    (hresolved : c'.resolved = s.context.resolved) (node : NodeId) : s.Traces ⟨c', l⟩ node := by
  rintro p (⟨k, hk, horigin, hnode, rfl⟩ | hr)
  · have hk : k ∈ c'.classes.toList := hk
    rw [hclasses, Scopes.toList_map] at hk
    obtain ⟨k, hmem, rfl⟩ := List.mem_map.mp hk
    exact ⟨⟨k.className, k.ty⟩, .inl ⟨k, hmem, horigin, hnode, rfl⟩, rfl, unites_apply (s := ⟨c', l⟩) (hs.classes k hmem).1⟩
  · have hr : ∃ r ∈ c'.resolved.get node, p = ⟨r.className, r.ty⟩ := hr
    rw [hresolved] at hr
    exact ⟨p, .inr hr, rfl, .refl _ p.ty⟩

end State

namespace InferM

open Context Relation

variable {α β : Type} {s : State} {c : Context} {session : Session} {env : Env}

theorem Idles.calm {m : InferM α} (h : Idles m) (c : Context) : Ensures m c fun _ c' => c.Calm c' := by
  have hsteps := h.steps c
  change c.Calm (m.run c).2
  generalize (m.run c).2 = c' at hsteps
  induction hsteps with
  | refl => exact .refl c
  | tail _ hstep ih => exact ih.trans hstep.idle.calm

theorem Keeps.ensures_bind {m : InferM α} {f : α → InferM β} {Q : α → State → Prop} {R : β → Context → Prop} (hm : Keeps m s Q)
    (hf : ∀ a s', s.Leads s' → s'.Ready → Q a s' → Ensures (f a) s'.context R) : Ensures (m >>= f) s.context R := by
  obtain ⟨l, hleads, hready, hQ⟩ := hm
  exact hf _ _ hleads hready hQ

theorem resolveGround_passes (r : Registry) (rejected : List TypeVarId) (reported : List (String × String)) (ks : List ClassConstraint) :
    Ensures (resolveGround r rejected reported ks) c fun _ c' => Passes ks c c' := by
  induction ks generalizing reported c with
  | nil => exact .of_eq _ rfl rfl rfl
  | cons k ks ih =>
      have hrest {c₁ : Context} (reported : List (String × String)) (h : Passes (k :: ks) c c₁) :
          Ensures (resolveGround r rejected reported ks) c₁ fun _ c' => Passes (k :: ks) c c' :=
        (ih reported).mono fun _ _ h' => h.trans (h'.mono fun _ => List.mem_cons_of_mem k)
      have hself : Passes (k :: ks) c c := .of_eq _ rfl rfl rfl
      rw [resolveGround]
      refine ensures_ite (fun _ => hrest _ hself) fun _ => ensures_ite (fun _ => ?_) fun _ => ?_
      · exact .bind (hrest _ hself) fun _ _ h => h
      split
      next e hresolve =>
        have hlogged : Passes (k :: ks) c ((c.log e.event).note k.node k.ty (.resolve k.className)) := .of_eq _ rfl rfl rfl
        refine ensures_modify (ensures_modify (ensures_ite (fun horigin => ?_) fun _ => hrest _ hlogged))
        exact ensures_modify (hrest _ (hlogged.trans (passes_record (Registry.resolve_ok hresolve) List.mem_cons_self horigin)))
      · exact ensures_ite (fun _ => hrest _ hself) fun _ => ensures_modify (hrest _ (.of_eq _ rfl rfl rfl))
      · exact ensures_modify (hrest _ (.of_eq _ rfl rfl rfl))

theorem resolveGround_takes (r : Registry) (rejected : List TypeVarId) (reported : List (String × String)) (ks : List ClassConstraint) :
    Ensures (resolveGround r rejected reported ks) c fun pending c' => Passes ks c c' ∧ ∀ k ∈ pending, k ∈ ks := by
  have hpending : Ensures (resolveGround r rejected reported ks) c fun pending _ => ∀ k ∈ pending, k ∈ ks :=
    (resolveGround_pending r rejected reported ks).mono fun _ _ h _ hk => List.mem_of_mem_filter (h.1 ▸ hk)
  exact .intro ⟨resolveGround_passes r rejected reported ks, hpending⟩

theorem dispose_passes (level : BindingLevel) (ks : List ClassConstraint) : Ensures (dispose level ks) c fun _ c' => Passes ks c c' := by
  have hreport (seen : List (String × String)) (ks' : List ClassConstraint) :
      Ensures (reportUnsolved seen ks') c fun _ c' => Passes ks c c' := by
    induction ks' generalizing seen c with
    | nil => exact .of_eq _ rfl rfl rfl
    | cons k ks' ih =>
        rw [reportUnsolved]
        have hreported : Passes ks c (c.report k.node (unsolved k)) := .of_eq ks rfl rfl rfl
        refine ensures_ite (fun _ => ih seen) fun _ => ?_
        apply ensures_modify
        exact (ih _).mono fun _ _ h => hreported.trans h
  cases level with
  | nested => exact c.passes_deferClasses ks
  | topLevel => exact hreport [] ks

theorem conclude_passes (node : NodeId) (level : BindingLevel) (generalizable : Bool) (cl : Closing) :
    Ensures (conclude node level generalizable cl) c fun _ c' => Passes cl.pending c c' := by
  have hschemes (ts : List Ty) : Ensures (ts.mapM (schemeOf node cl.envTypeVars cl.envRowVars cl.pending)) c fun _ c' =>
      Passes cl.pending c c' := by
    induction ts generalizing c with
    | nil => exact .of_eq _ rfl rfl rfl
    | cons t ts ih =>
        rw [List.mapM_cons]
        refine .bind (Q := fun _ c' => Passes cl.pending c c') (.of_eq _ rfl rfl rfl) fun _ _ h => ?_
        refine .bind ih fun _ _ h' => ?_
        exact h.trans h'
  have hdispose {c₁ : Context} (h : Passes cl.pending c c₁) (p : ClassConstraint → Bool) :
      Ensures (dispose level (cl.pending.filter p)) c₁ fun _ c' => Passes cl.pending c c' :=
    (dispose_passes ..).mono fun _ _ h' => h.trans (h'.mono fun _ => List.mem_of_mem_filter)
  cases generalizable with
  | true =>
      refine .bind (hschemes _) fun _ _ h => ?_
      refine .bind (hdispose h _) fun _ _ h => ?_
      exact h
  | false => exact .bind (f := fun _ => pure _) (hdispose (.of_eq _ rfl rfl rfl) _) fun _ _ h => h

theorem keeps_solve_traces (hs : s.Ready) : Keeps solve s fun _ s' => ∀ node, s.Traces s' node := by
  have hflush : Keeps flush s fun _ s₁ => s.context.Calm s₁.context :=
    ((keeps_flush hs).and_ensures (idles_flush.calm s.context)).mono fun _ _ _ _ h => h.2
  refine hflush.bind (f := fun _ => modify fun c : Context => c.mapClasses c.apply) fun _ s₁ h₁ hs₁ hcalm => ?_
  have hmap : Keeps (modify fun c : Context => c.mapClasses c.apply) s₁ fun _ s' => ∀ node, s₁.Traces s' node := by
    obtain ⟨l, hleads, hready, -⟩ := keeps_applyClasses hs₁
    refine ⟨l, hleads, hready, fun node => ?_⟩
    refine State.traces_mapClasses hs₁ ?_ ?_ node <;> rfl
  exact hmap.mono fun _ s₂ h₂ _ htraces node => (State.Traces.of_calm hcalm node).trans (htraces node) h₂.grows

theorem applyOutcome_traces (hs : s.Ready) (node : NodeId) (monotype : Ty) (outcome : DefaultingOutcome) (l : Option Layout) :
    Ensures (applyOutcome node monotype outcome) s.context fun _ c' => ∀ i, s.Traces ⟨c', l⟩ i := by
  have hdefaults {c : Context} (h : c.classes = s.context.classes ∧ c.resolved = s.context.resolved) (i : NodeId) :
      s.Traces ⟨c.applyDefaults outcome.subst, l⟩ i := by
    have hground : c.Grounded := fun e he => hs.resolved e (h.2 ▸ he)
    have hresolved : (c.applyDefaults outcome.subst).resolved = s.context.resolved := (hground.resolved_applyDefaults _).trans h.2
    by_cases hempty : outcome.subst.isEmpty = true
    · rw [Context.applyDefaults_eq, if_pos hempty]
      exact .of_calm (.of_eq h.1 h.2) i
    · refine State.traces_mapClasses hs ?_ hresolved i
      rw [Context.applyDefaults_eq, if_neg hempty, ← h.1]
      rfl
  apply ensures_modify
  refine .bind (ensures_forM (P := fun c => c.classes = s.context.classes ∧ c.resolved = s.context.resolved) ⟨rfl, rfl⟩ fun _ _ _ h => h) fun _ c h => ?_
  exact ensures_ite (fun _ => hdefaults h) fun _ => hdefaults h

theorem closeBoundary_traces (hs : s.Ready) (hsupports : s.Supports session) (node : NodeId) {ts : List Ty} (hts : ∀ t ∈ ts, s.Owns t)
    (level : BindingLevel) (generalizable : Bool) (l : Option Layout) :
    Ensures (closeBoundary session env node ts level generalizable) s.context fun _ c' => ∀ i, s.Traces ⟨c', l⟩ i := by
  rw [closeBoundary_eq]
  have hclosing : Ensures (closing session env node ts level generalizable) s.context fun cl c' => ∃ c : Context,
      (∀ i, s.Traces ⟨c, l⟩ i) ∧ Passes c.classes.takeScope.1 { c with classes := c.classes.takeScope.2 } c' ∧
        ∀ k ∈ cl.pending, k ∈ c.classes.takeScope.1 := by
    refine (keeps_solve_traces hs).ensures_bind fun _ s₁ h₁ hs₁ htraces₁ => ensures_get ?_
    have hclosed := (keeps_closeResultEffects hs₁ node (fun t ht => h₁.owns (hts t ht)) (env.freeRowVars s₁.context.subst)).and_ensures
      ((idles_closeResultEffects ..).calm s₁.context)
    refine hclosed.ensures_bind fun _ s₂ h₂ hs₂ ⟨_, hcalm⟩ => ensures_get ?_
    have hsound := Defaulting.sound_defaultConstraints (r := session.registry) (Ty.tuple (ts.map s₂.context.apply))
      s₁.context.classes.innermost (env.freeTypeVars s₁.context.subst)
      (if level = .topLevel ∧ !generalizable then .topLevel else .boundary)
    have hks : ∀ k ∈ s₁.context.classes.innermost, k.ty.Within s₂.supply := fun k hk =>
      (hs₁.classes k (Scopes.mem_toList_of_innermost hk)).mono h₂.covers
    have happlied := (keeps_applyOutcome hs₂ ((h₁.trans h₂).supports hsupports) node (Ty.tuple (ts.map s₂.context.apply)) hsound
      hks).and_ensures (applyOutcome_traces hs₂ _ _ _ l)
    refine happlied.ensures_bind fun _ s₃ h₃ _ ⟨_, htraces₃⟩ => ?_
    refine .bind (Q := fun ks c => ks = s₃.context.classes.takeScope.1 ∧ c = s₃.taken.context) ⟨rfl, rfl⟩ ?_
    rintro ks c ⟨rfl, rfl⟩
    apply ensures_get
    refine (resolveGround_takes ..).bind fun pending c₄ h₄ => ?_
    refine ensures_pure ⟨s₃.context, fun i => ?_, h₄.1, h₄.2⟩
    exact ((htraces₁ i).trans (.of_calm hcalm i) h₂.grows).trans (htraces₃ i) h₃.grows
  refine hclosing.bind fun cl c₁ ⟨c, htraces, hpasses, hpending⟩ => ?_
  refine (conclude_passes ..).mono fun _ c' h i => ?_
  have hpasses' := hpasses.trans (h.mono hpending)
  apply (htraces i).trans (.of_calm hpasses'.calm i)
  change c'.subst.Extends c.subst
  exact hpasses'.subst ▸ .refl _

end InferM

end RowTyping
