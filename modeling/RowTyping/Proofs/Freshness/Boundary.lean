import RowTyping.Proofs.Defaulting
import RowTyping.Proofs.Freshness.Parts
import RowTyping.Proofs.Inference.Closing

namespace RowTyping

theorem Ty.mem_vars_of_latentTail {t : Ty} {r : RowVarId} (h : t.latentTail = some r) : .row r ∈ t.vars := by
  cases t with
  | fn => exact mem_vars_latent.mpr (.inr (.inl (Effects.mem_vars_of_tail h)))
  | _ => cases h

namespace InferM

open Walk

variable {old : List Var} {session : Session} {env : Env} {K : Var → Prop} {node : NodeId}

theorem contained_closeResultEffects {ts : List Ty} (hts : ∀ t ∈ ts, ∀ v ∈ t.vars, K v) (envRowVars : List RowVarId) :
    Contained old K (closeResultEffects node ts envRowVars) (Silent Unit) := by
  refine contained_get fun c => ?_
  refine contained_ite (fun _ => contained_idle) fun _ => ?_
  refine (contained_forM fun r hr => ?_).after fun _ => contained_flush
  obtain ⟨_, ht, htail⟩ := List.mem_filterMap.mp (List.mem_filter.mp hr).1
  obtain ⟨t, hmem, rfl⟩ := List.mem_map.mp ht
  refine contained_equateRows _ _ (fun v hv => absurd hv Row.not_mem_vars_closedEffects) fun v hv => ?_
  rw [Row.mem_vars_openEffects hv]
  exact (Substitution.mem_vars_or_mentions (Ty.mem_vars_of_latentTail htail)).symm.imp_right (hts t hmem _)

theorem contained_applyOutcome (monotype : Ty) {outcome : DefaultingOutcome}
    (h : ∀ e ∈ outcome.subst.types, K (.type e.1) ∧ e.2.isGround = true) :
    Contained old K (applyOutcome node monotype outcome) (Silent Unit) := by
  have hlog : Contained old K (modify (Context.logAll outcome.events)) (Silent Unit) := contained_aside fun _ => ⟨rfl, rfl, rfl, rfl⟩
  have hdefaults : Contained old K (applyDefaults outcome.subst) (Silent Unit) :=
    contained_applyDefaults fun e he => ⟨(h e he).1, fun v hv => absurd hv (Ty.isGround_iff.mp (h e he).2 v)⟩
  refine hlog.after fun _ => ?_
  refine (contained_forM fun d _ => contained_report ..).after fun _ => ?_
  refine contained_ite (fun _ => ?_) fun _ => hdefaults
  exact (contained_note ..).after fun _ => hdefaults

-- What is recorded is ground.
theorem contained_resolveGround (r : Registry) (rejected : List TypeVarId) (reported : List (String × String))
    {ks : List ClassConstraint} (hks : ∀ k ∈ ks, ∀ v ∈ k.ty.vars, K v) :
    Contained old K (resolveGround r rejected reported ks) fun pending v => ∃ k ∈ pending, v ∈ k.ty.vars := by
  induction ks generalizing reported with
  | nil => exact contained_pure nofun
  | cons k ks ih =>
      rw [List.forall_mem_cons] at hks
      have hrest (reported : List (String × String)) := ih reported hks.2
      rw [resolveGround]
      refine contained_ite (fun _ => hrest reported) fun _ => ?_
      refine contained_ite (fun _ => contained_cons hks.1 (hrest reported)) fun _ => ?_
      split
      next e he =>
        have hground := Ty.isGround_iff.mp (Registry.resolve_ok he).ground
        have hrecord : Contained old K (modify fun c => { c with resolved := c.resolved.record e }) (Silent Unit) :=
          contained_recordResolution fun v hv => absurd hv (hground v)
        refine (contained_log e.event).after fun _ => ?_
        refine (contained_note ..).after fun _ => ?_
        refine contained_ite (fun _ => ?_) fun _ => hrest reported
        exact hrecord.after fun _ => hrest reported
      next =>
        refine contained_ite (fun _ => hrest reported) fun _ => ?_
        exact (contained_report ..).after fun _ => hrest _
      next violation _ =>
        have hfail : Contained old K (modify (Context.failInternal violation)) (Silent Unit) :=
          contained_aside fun _ => ⟨rfl, rfl, rfl, rfl⟩
        exact hfail.after fun _ => hrest reported

theorem contained_reportUnsolved (seen : List (String × String)) (ks : List ClassConstraint) :
    Contained old K (reportUnsolved seen ks) (Silent Unit) := by
  induction ks generalizing seen with
  | nil => exact contained_idle
  | cons k ks ih =>
      rw [reportUnsolved]
      refine contained_ite (fun _ => ih seen) fun _ => ?_
      exact (contained_report ..).after fun _ => ih _

theorem contained_schemeOf (envTypeVars : List TypeVarId) (envRowVars : List RowVarId) {pending : List ClassConstraint} {t : Ty}
    (hpending : ∀ k ∈ pending, ∀ v ∈ k.ty.vars, K v) (ht : ∀ v ∈ t.vars, K v) :
    Contained old K (schemeOf node envTypeVars envRowVars pending t) fun scheme v => v ∈ scheme.mentions := by
  refine (contained_log _).after fun _ => ?_
  refine (contained_note ..).after fun _ => ?_
  refine contained_pure fun v hv => ?_
  rcases Scheme.mem_mentions_generalize hv with hv | ⟨p, hp, hv⟩
  · exact ht v hv
  · obtain ⟨k, hk, -, rfl⟩ := mem_attached.mp hp
    exact hpending k hk v hv

def Closing.Mentions (cl : Closing) (v : Var) : Prop :=
  (∃ t ∈ cl.types, v ∈ t.vars) ∨ ∃ k ∈ cl.pending, v ∈ k.ty.vars

theorem contained_closing (hdefaults : ∀ t, session.registry.IsDefault t → t.isGround = true) {ts : List Ty}
    (hts : ∀ t ∈ ts, ∀ v ∈ t.vars, K v) (level : BindingLevel) (generalizable : Bool) :
    Contained old K (closing session env node ts level generalizable) Closing.Mentions := by
  refine contained_solve.after fun _ => ?_
  refine contained_get_classes fun c => ?_
  refine (contained_closeResultEffects (fun t ht v hv => .inr (hts t ht v hv)) _).after fun _ => ?_
  refine contained_get fun c' => ?_
  refine (contained_applyOutcome _ fun e he => ?_).after fun _ => ?_
  · obtain ⟨hdefault, k, hk, hv⟩ := (Defaulting.sound_defaultConstraints ..).binds e he
    exact ⟨.inr (.inl (.inr ⟨k, Scopes.mem_toList_of_innermost hk, hv⟩)), hdefaults e.2 hdefault⟩
  refine contained_takeClassScope.bind fun constraints => ?_
  refine contained_get fun c'' => ?_
  refine (contained_resolveGround _ _ _ fun k hk v hv => .inr (.inl ⟨k, hk, hv⟩)).bind fun pending => ?_
  refine contained_pure fun v => ?_
  rintro (⟨_, ht, hv⟩ | hv)
  · obtain ⟨t, hmem, rfl⟩ := List.mem_map.mp ht
    rcases Substitution.mem_vars_or_mentions hv with hv | hv
    · exact .inr (.inr (.inr (.inr (.inr (hts t hmem v hv)))))
    · exact .inr (.inl hv)
  · exact .inl hv

theorem contained_dispose (level : BindingLevel) {ks : List ClassConstraint} (hks : ∀ k ∈ ks, ∀ v ∈ k.ty.vars, K v) :
    Contained old K (dispose level ks) (Silent Unit) := by
  cases level with
  | nested => exact contained_deferClasses hks
  | topLevel => exact contained_reportUnsolved [] ks

theorem contained_conclude (level : BindingLevel) (generalizable : Bool) {cl : Closing} (hcl : ∀ v, cl.Mentions v → K v) :
    Contained old K (conclude node level generalizable cl) fun schemes v => ∃ scheme ∈ schemes, v ∈ scheme.mentions := by
  have hpending (k : ClassConstraint) (hk : k ∈ cl.pending) (v : Var) (hv : v ∈ k.ty.vars) : K v := hcl v (.inr ⟨k, hk, hv⟩)
  have hdispose (schemes : List Scheme) (leaves : ClassConstraint → Bool) :
      Contained old (fun v => (∃ scheme ∈ schemes, v ∈ scheme.mentions) ∨ K v) (do
        dispose level (cl.pending.filter leaves)
        return schemes) fun schemes v => ∃ scheme ∈ schemes, v ∈ scheme.mentions := by
    refine (contained_dispose level fun k hk v hv => ?_).after fun _ => contained_pure fun _ => .inl
    exact .inr (hpending k (List.mem_filter.mp hk).1 v hv)
  cases generalizable with
  | true =>
      have hschemes (t : Ty) (ht : t ∈ cl.types) : Contained old K (schemeOf node cl.envTypeVars cl.envRowVars cl.pending t)
          fun scheme v => v ∈ scheme.mentions :=
        contained_schemeOf _ _ hpending fun v hv => hcl v (.inl ⟨t, ht, hv⟩)
      exact (contained_mapM hschemes).bind fun schemes => hdispose schemes _
  | false =>
      have hmono : Contained old K (pure (cl.types.map Scheme.mono)) fun schemes v => ∃ scheme ∈ schemes, v ∈ scheme.mentions := by
        apply contained_pure
        rintro v ⟨_, hscheme, hv⟩
        obtain ⟨t, ht, rfl⟩ := List.mem_map.mp hscheme
        exact hcl v (.inl ⟨t, ht, Scheme.mem_mentions_mono.mp hv⟩)
      exact hmono.bind fun schemes => hdispose schemes _

theorem contained_closeBoundary (hdefaults : ∀ t, session.registry.IsDefault t → t.isGround = true) {ts : List Ty}
    (hts : ∀ t ∈ ts, ∀ v ∈ t.vars, K v) (level : BindingLevel) (generalizable : Bool) :
    Contained old K (closeBoundary session env node ts level generalizable) fun schemes v =>
      ∃ scheme ∈ schemes, v ∈ scheme.mentions := by
  rw [closeBoundary_eq]
  refine (contained_closing hdefaults hts level generalizable).bind fun cl => ?_
  exact contained_conclude level generalizable fun _ => .inl

end InferM

end RowTyping
