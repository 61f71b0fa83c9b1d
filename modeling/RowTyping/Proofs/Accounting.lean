import RowTyping.Proofs.Cascades
import RowTyping.Proofs.Decisions
import RowTyping.Proofs.FreeVariables

namespace RowTyping

theorem Registry.category_of_missing {r : Registry} {k : ClassConstraint} {d : Diagnostic} (h : r.resolve k = .error (.missing d)) :
    d.category = .missingInstance := by
  rw [resolve] at h
  split at h
  · cases h
  · split at h
    · cases h
      rfl
    · cases h

namespace Context

variable {c c₁ c' : Context} {d : Diagnostic}

def Reports (c c' : Context) (d : Diagnostic) : Prop :=
  ∃ ds, c'.errors = c.errors ++ ds ∧ ∃ d' ∈ ds, d'.category = d.category ∧ d'.message = d.message

theorem reports_report (c : Context) (node : NodeId) (d : Diagnostic) : c.Reports (c.report node d) d := by
  obtain ⟨d', hd', hsame⟩ := c.errors_report node d
  exact ⟨[d'], hd', d', List.mem_singleton_self d', hsame⟩

theorem Reports.later (h : c.Reports c₁ d) (herrors : c₁.errors <+: c'.errors) : c.Reports c' d := by
  obtain ⟨ds, hds, d', hd', hsame⟩ := h
  obtain ⟨ds', hds'⟩ := herrors
  exact ⟨ds ++ ds', by rw [← hds', hds, List.append_assoc], d', List.mem_append_left _ hd', hsame⟩

theorem Reports.earlier (h : c₁.Reports c' d) (herrors : c.errors <+: c₁.errors) : c.Reports c' d := by
  obtain ⟨ds, hds, d', hd', hsame⟩ := h
  obtain ⟨ds', hds'⟩ := herrors
  exact ⟨ds' ++ ds, by rw [hds, ← hds', List.append_assoc], d', List.mem_append_right _ hd', hsame⟩

structure Retains (c c' : Context) : Prop where
  errors : c.errors <+: c'.errors
  resolved : ∀ node, ∀ e ∈ c.resolved.get node, e ∈ c'.resolved.get node

theorem Retains.refl (c : Context) : c.Retains c :=
  ⟨List.prefix_rfl, fun _ _ he => he⟩

theorem Retains.trans (h : c.Retains c₁) (h' : c₁.Retains c') : c.Retains c' :=
  ⟨h.errors.trans h'.errors, fun node e he => h'.resolved node e (h.resolved node e he)⟩

theorem Retains.of_eq (herrors : c'.errors = c.errors) (hresolved : c'.resolved = c.resolved) : c.Retains c' :=
  ⟨herrors ▸ List.prefix_rfl, fun _ _ he => hresolved ▸ he⟩

theorem retains_report (c : Context) (node : NodeId) (d : Diagnostic) : c.Retains (c.report node d) :=
  ⟨⟨[_], rfl⟩, fun _ _ he => he⟩

theorem retains_record (c : Context) (e : Resolution) : c.Retains { c with resolved := c.resolved.record e } :=
  ⟨List.prefix_rfl, fun node => (ResolutionTable.get_record e node).1⟩

def Told (r : Registry) (c c' : Context) (key : String × String) : Prop :=
  ∃ k d, (k.className, k.ty.text) = key ∧ r.resolve k = .error (.missing d) ∧ d.category = .missingInstance ∧ c.Reports c' d

def Answered (r : Registry) (c c' : Context) (k : ClassConstraint) : Prop :=
  (∃ e, r.resolve k = .ok e ∧ (k.origin ≠ .literal → ∃ e' ∈ c'.resolved.get k.node, e'.className = k.className ∧ e'.ty = k.ty)) ∨
    (∃ d, r.resolve k = .error (.missing d)) ∧ Told r c c' (k.className, k.ty.text)

variable {r : Registry} {k : ClassConstraint} {key : String × String}

theorem Told.later (h : Told r c c₁ key) (herrors : c₁.errors <+: c'.errors) : Told r c c' key := by
  obtain ⟨k, d, hkey, hresolve, hcategory, hreports⟩ := h
  exact ⟨k, d, hkey, hresolve, hcategory, hreports.later herrors⟩

theorem Answered.later (h : Answered r c c₁ k) (hretains : c₁.Retains c') : Answered r c c' k := by
  rcases h with ⟨e, hresolve, hrecorded⟩ | ⟨hmissing, htold⟩
  · refine .inl ⟨e, hresolve, fun horigin => ?_⟩
    obtain ⟨e', he', hsame⟩ := hrecorded horigin
    exact ⟨e', hretains.resolved _ e' he', hsame⟩
  · exact .inr ⟨hmissing, htold.later hretains.errors⟩

theorem answered_record {e : Resolution} (h : r.resolve k = .ok e) : Answered r c { c' with resolved := c'.resolved.record e } k := by
  have hanswers := Registry.resolve_ok h
  obtain ⟨e', he', hname, hty⟩ := (c'.resolved.get_record e e.node).2
  exact .inl ⟨e, h, fun _ => ⟨e', hanswers.node ▸ he', hname.trans hanswers.className, hty.trans hanswers.ty⟩⟩

end Context

namespace InferM

open Context

variable {session : Session} {env : Env} {c : Context}

theorem Idles.resolved {α : Type} {m : InferM α} (h : Idles m) (c : Context) : Ensures m c fun _ c' => c'.resolved = c.resolved := by
  have hsteps := h.steps c
  change (m.run c).2.resolved = c.resolved
  generalize (m.run c).2 = c' at hsteps
  induction hsteps with
  | refl => rfl
  | tail _ hstep ih => exact hstep.idle.resolved.trans ih

theorem Idles.retains {α : Type} {m : InferM α} (h : Idles m) (c : Context) : Ensures m c fun _ c' => c.Retains c' :=
  ⟨(h.stepwise (r := .empty)).errors c, fun _ _ he => h.resolved c ▸ he⟩

theorem reports_forM (node : NodeId) (ds : List Diagnostic) :
    Ensures (ds.forM (report node)) c fun _ c' => ∀ d ∈ ds, c.Reports c' d := by
  induction ds generalizing c with
  | nil => exact List.forall_mem_nil _
  | cons d ds ih =>
      have hrest : Ensures (ds.forM (report node)) (c.report node d) fun _ c' =>
          (c.report node d).Retains c' ∧ ∀ d' ∈ ds, (c.report node d).Reports c' d' :=
        .intro ⟨ensures_forM (.refl _) fun d' _ c' h => h.trans (c'.retains_report node d'), ih⟩
      apply ensures_modify
      refine hrest.mono fun _ c' h => ?_
      refine List.forall_mem_cons.mpr ⟨?_, fun d' hd' => ?_⟩
      · exact (c.reports_report node d).later h.1.errors
      · exact (h.2 d' hd').earlier (c.retains_report node d).errors

def Due (rejected : List TypeVarId) (k : ClassConstraint) : Prop :=
  k.ty.typeVars.any rejected.contains = false ∧ k.isGround = true

-- The induction is over the context at hand, while what was told was told since the first one.
theorem resolveGround_answers {r : Registry} {rejected : List TypeVarId} {c₀ : Context} {reported : List (String × String)}
    (hreported : ∀ key ∈ reported, Told r c₀ c key) (hgrows : c₀.errors <+: c.errors) (ks : List ClassConstraint) :
    Ensures (resolveGround r rejected reported ks) c fun _ c' => c.Retains c' ∧ ∀ k ∈ ks, Due rejected k → Answered r c₀ c' k := by
  induction ks generalizing reported c with
  | nil => exact ⟨.refl c, List.forall_mem_nil _⟩
  | cons k ks ih =>
      have hskip (hk : ¬ Due rejected k) : Ensures (resolveGround r rejected reported ks) c fun _ c' => c.Retains c' ∧
          ∀ k' ∈ k :: ks, Due rejected k' → Answered r c₀ c' k' :=
        (ih hreported hgrows).mono fun _ _ h => ⟨h.1, List.forall_mem_cons.mpr ⟨fun hdue => absurd hdue hk, h.2⟩⟩
      have hrest {c₁ : Context} {reported : List (String × String)} (hretains : c.Retains c₁)
          (hreported : ∀ key ∈ reported, Told r c₀ c₁ key) (hanswered : Answered r c₀ c₁ k) :
          Ensures (resolveGround r rejected reported ks) c₁ fun _ c' => c.Retains c' ∧
            ∀ k' ∈ k :: ks, Due rejected k' → Answered r c₀ c' k' :=
        (ih hreported (hgrows.trans hretains.errors)).mono fun _ _ h =>
          ⟨hretains.trans h.1, List.forall_mem_cons.mpr ⟨fun _ => hanswered.later h.1, h.2⟩⟩
      rw [resolveGround]
      refine ensures_ite (fun hrejected => hskip (by simp [Due, hrejected])) fun _ => ensures_ite (fun hground => ?_) fun hground => ?_
      · exact (hskip fun hdue => by simp [hdue.2] at hground).bind fun _ _ h => h
      rcases r.resolve_of_ground (by simpa using hground) with ⟨e, hresolve⟩ | ⟨d, hresolve⟩
      · have hnoted : c.Retains ((c.log e.event).note k.node k.ty (.resolve k.className)) := .of_eq rfl rfl
        rw [hresolve]
        refine ensures_modify (ensures_modify (ensures_ite (fun _ => ensures_modify ?_) fun horigin => ?_))
        · exact hrest (hnoted.trans (retains_record _ e)) hreported (answered_record hresolve)
        · exact hrest hnoted hreported (.inl ⟨e, hresolve, fun hneeded => absurd hneeded horigin⟩)
      · have htold : Told r c₀ (c.report k.node d) (k.className, k.ty.text) :=
          ⟨k, d, rfl, hresolve, Registry.category_of_missing hresolve, (c.reports_report k.node d).earlier hgrows⟩
        rw [hresolve]
        refine ensures_ite (fun hbefore => hrest (.refl c) hreported ?_) fun _ => ensures_modify (hrest (c.retains_report k.node d) ?_ ?_)
        · exact .inr ⟨⟨d, hresolve⟩, hreported _ (List.contains_iff_mem.mp hbefore)⟩
        · exact List.forall_mem_cons.mpr ⟨htold, fun key hkey => (hreported key hkey).later (c.retains_report k.node d).errors⟩
        · exact .inr ⟨⟨d, hresolve⟩, htold⟩

theorem applyOutcome_reports (node : NodeId) (monotype : Ty) (outcome : DefaultingOutcome) :
    Ensures (applyOutcome node monotype outcome) c fun _ c' => c.errors <+: c'.errors ∧ ∀ d ∈ outcome.errors, c.Reports c' d := by
  suffices h : Ensures (applyOutcome node monotype outcome) c fun _ c' => ∀ d ∈ outcome.errors, c.Reports c' d from
    .intro ⟨(stepwise_applyOutcome (r := .empty) ..).errors c, h⟩
  apply ensures_modify
  refine .bind (reports_forM node outcome.errors) fun _ c₁ h => ?_
  have hdefaults (c : Context) : c.errors <+: (c.applyDefaults outcome.subst).errors := (Quiet.applyDefaults c _).errors
  exact ensures_ite (fun _ => ensures_modify fun d hd => (h d hd).later (hdefaults (c₁.note ..))) fun _ d hd => (h d hd).later (hdefaults c₁)

structure Attends (session : Session) (c : Context) (cl : Closing) (c' : Context) : Prop where
  grows : c.errors <+: c'.errors
  rejected : ∀ v ∈ cl.rejected, ∃ d, Defaulting.Explains session.registry c.solve.classes.innermost v d ∧ c.Reports c' d
  answered : ∀ k ∈ cl.constraints, Due cl.rejected k → Answered session.registry c c' k

theorem Attends.later {cl : Closing} {c₁ c' : Context} (h : Attends session c cl c₁) (hretains : c₁.Retains c') :
    Attends session c cl c' where
  grows := h.grows.trans hretains.errors
  rejected v hv := by
    obtain ⟨d, hexplains, hreports⟩ := h.rejected v hv
    exact ⟨d, hexplains, hreports.later hretains.errors⟩
  answered k hk hdue := (h.answered k hk hdue).later hretains

theorem closing_attends (node : NodeId) (ts : List Ty) (level : BindingLevel) (generalizable : Bool) :
    Ensures (closing session env node ts level generalizable) c (Attends session c) := by
  have hsolved : c.errors <+: c.solve.errors := (Quiet.solve c).errors
  refine ensures_solve (ensures_get ?_)
  refine .bind ((idles_closeResultEffects ..).retains _) fun _ c₁ h₁ => ensures_get ?_
  refine .bind (applyOutcome_reports ..) fun _ c₂ h₂ => ?_
  have hgrows := (hsolved.trans h₁.errors).trans h₂.1
  refine .bind (Q := fun _ c₃ => c₃.errors = c₂.errors) rfl fun constraints c₃ h₃ => ensures_get ?_
  refine (resolveGround_answers (List.forall_mem_nil _) (h₃ ▸ hgrows) constraints).bind fun pending c₄ h₄ =>
    ensures_pure ⟨hgrows.trans (h₃ ▸ h₄.1.errors), fun v hv => ?_, h₄.2⟩
  obtain ⟨d, hd, hexplains⟩ := Defaulting.exists_explains hv
  exact ⟨d, hexplains, ((h₂.2 d hd).earlier (hsolved.trans h₁.errors)).later (h₃ ▸ h₄.1.errors)⟩

theorem conclude_retains (node : NodeId) (level : BindingLevel) (generalizable : Bool) (cl : Closing) :
    Ensures (conclude node level generalizable cl) c fun _ c' => c.Retains c' := by
  have hdispose {c : Context} (ks : List ClassConstraint) : Ensures (dispose level ks) c fun _ c' => c.Retains c' := by
    cases level with
    | nested => exact .of_eq rfl rfl
    | topLevel => exact (idles_reportUnsolved [] ks).retains c
  cases generalizable with
  | true =>
      refine .bind ((idles_mapM (fun t => idles_schemeOf ..) _).retains c) fun _ _ h => ?_
      refine .bind (hdispose _) fun _ _ h' => ?_
      exact h.trans h'
  | false => exact .bind (f := fun _ => pure _) (hdispose _) fun _ _ h => h

theorem conclude_shares_plain (node : NodeId) (level : BindingLevel) (cl : Closing) :
    Ensures (conclude node level false cl) c (Shares level cl c) := by
  have hquantifies (t : Ty) (k : ClassConstraint) : ¬ Quantifies (.mono t) k := fun h => by
    obtain ⟨v, hv⟩ := List.exists_mem_of_ne_nil _ h.1
    cases h.2 v hv
  have hleft : leftovers cl (cl.types.map Scheme.mono) = cl.pending.filter fun k =>
      !(false && cl.types.any fun t => attaches (OrderedSet.diff t.typeVars cl.envTypeVars) k) := by
    refine List.filter_congr fun k _ => decide_eq_true ?_
    exact List.forall_mem_map.mpr fun t _ => hquantifies t k
  refine .bind (f := fun _ => pure _) (dispose_disposes ..) fun _ c' h => ensures_pure ⟨?_, ?_, hleft ▸ h⟩
  · exact List.forall_mem_map.mpr fun t _ k _ => iff_of_false List.not_mem_nil (hquantifies t k)
  · exact List.forall_mem_map.mpr fun _ _ => List.forall_mem_nil _

inductive Fate where
  | rejected
  | resolved
  | attached
  | passed
  deriving DecidableEq, Repr

def Meets (session : Session) (level : BindingLevel) (c : Context) (cl : Closing) (schemes : List Scheme) (c' : Context)
    (k : ClassConstraint) : Fate → Prop
  | .rejected => ∃ v ∈ k.ty.typeVars, v ∈ cl.rejected ∧ ∃ d, Defaulting.Explains session.registry c.solve.classes.innermost v d ∧
      d.category = .ambiguousType ∧ c.Reports c' d
  | .resolved => k.isGround = true ∧ Answered session.registry c c' k
  | .attached => ∃ scheme ∈ schemes, ⟨k.className, k.ty⟩ ∈ scheme.predicates
  | .passed => k ∈ leftovers cl schemes ∧ (level = .topLevel → c.Reports c' (unsolved k))

namespace Closing

variable {level : BindingLevel} {cl : Closing} {schemes : List Scheme} {k : ClassConstraint} {c₁ c' : Context}

def fate (cl : Closing) (schemes : List Scheme) (k : ClassConstraint) : Fate :=
  if k.ty.typeVars.any cl.rejected.contains then .rejected
  else if k.isGround then .resolved
  else if ∃ scheme ∈ schemes, Quantifies scheme k then .attached
  else .passed

theorem not_rejected_of_ground (cl : Closing) (h : k.isGround = true) : k.ty.typeVars.any cl.rejected.contains = false := by
  have htypes : k.ty.typeVars = [] := List.isEmpty_iff.mp (Bool.and_eq_true_iff.mp h).1
  rw [htypes]
  rfl

section Fates

variable (hgathers : Gathers c cl c₁) (hattends : Attends session c cl c₁) (hretains : c₁.Retains c') (hshares : Shares level cl c₁ schemes c')
  (hk : k ∈ cl.constraints)

include hgathers hk

theorem mem_pending : k ∈ cl.pending ↔ k.ty.typeVars.any cl.rejected.contains = false ∧ k.isGround = false := by
  rw [hgathers.pending, List.mem_filter, and_iff_right hk]
  simp

theorem mem_leftovers : k ∈ leftovers cl schemes ↔ cl.fate schemes k = .passed := by
  rw [leftovers, List.mem_filter, mem_pending hgathers hk, fate]
  split_ifs <;> simp_all

include hshares

theorem exists_mem_predicates : (∃ scheme ∈ schemes, ⟨k.className, k.ty⟩ ∈ scheme.predicates) ↔ cl.fate schemes k = .attached := by
  -- A predicate comes from a constraint that waits. If it is on this type, so does this constraint.
  have hwaits (scheme : Scheme) (hscheme : scheme ∈ schemes) (hp : ⟨k.className, k.ty⟩ ∈ scheme.predicates) : k ∈ cl.pending := by
    obtain ⟨k', hk', heq⟩ := hshares.pending scheme hscheme _ hp
    have hty : k.ty = k'.ty := congrArg Predicate.ty heq
    rw [hgathers.pending, List.mem_filter] at hk' ⊢
    rw [ClassConstraint.isGround, hty]
    exact ⟨hk, hk'.2⟩
  have hfate : cl.fate schemes k = .attached ↔ k ∈ cl.pending ∧ ∃ scheme ∈ schemes, Quantifies scheme k := by
    rw [mem_pending hgathers hk, fate]
    split_ifs <;> simp_all
  rw [hfate]
  constructor
  · rintro ⟨scheme, hscheme, hp⟩
    have hpending := hwaits scheme hscheme hp
    exact ⟨hpending, scheme, hscheme, (hshares.predicates scheme hscheme k hpending).mp hp⟩
  · rintro ⟨hpending, scheme, hscheme, hquantifies⟩
    exact ⟨scheme, hscheme, (hshares.predicates scheme hscheme k hpending).mpr hquantifies⟩

include hattends hretains

theorem meets_iff (fate : Fate) : Meets session level c cl schemes c' k fate ↔ cl.fate schemes k = fate := by
  cases fate with
  | rejected =>
      have hfate : cl.fate schemes k = .rejected ↔ k.ty.typeVars.any cl.rejected.contains = true := by
        rw [Closing.fate]
        split_ifs <;> simp_all
      rw [hfate, List.any_eq_true]
      refine exists_congr fun v => and_congr_right fun _ => ⟨fun h => List.contains_iff_mem.mpr h.1, fun hv => ?_⟩
      have hv := List.contains_iff_mem.mp hv
      obtain ⟨d, hexplains, hreports⟩ := (hattends.later hretains).rejected v hv
      exact ⟨hv, d, hexplains, hexplains.category, hreports⟩
  | resolved =>
      have hfate : cl.fate schemes k = .resolved ↔ k.isGround = true := by
        have hrejected := not_rejected_of_ground (k := k) cl
        rw [Closing.fate]
        split_ifs <;> simp_all
      rw [hfate]
      exact ⟨And.left, fun hground => ⟨hground, (hattends.later hretains).answered k hk ⟨not_rejected_of_ground cl hground, hground⟩⟩⟩
  | attached => exact exists_mem_predicates hgathers hshares hk
  | passed =>
      refine .trans ⟨And.left, fun hleft => ⟨hleft, fun hlevel => ?_⟩⟩ (mem_leftovers hgathers hk)
      obtain ⟨-, ds, hds, -, hall⟩ := hshares.leftovers.reported hlevel
      exact Reports.earlier ⟨ds, hds, hall k hleft⟩ hattends.grows

end Fates

end Closing

section Rewriting

variable {s : State} {ts : List Ty} {cl : Closing} {c' : Context} (h : Commits session env ts s.context cl c')

include h

theorem Commits.apply_solve (hs : s.Ready) (hsupports : s.Supports session) (hacyclic : s.context.solve.subst.Acyclic) {t : Ty}
    (ht : t.Ordered) : c'.apply (s.context.solve.apply t) = c'.apply t :=
  (h.acyclic hsupports hacyclic).apply_absorbed (h.ordered hs hsupports hacyclic) (h.widens hacyclic).grows.honours (ordered_solve hs) ht

-- Only tails are bound besides, and no other variable is left to be bound.
theorem Commits.apply_of_untold (hacyclic : s.context.solve.subst.Acyclic) (htypes : c'.subst.types = s.context.solve.subst.types) {t : Ty}
    (ht : ∀ r ∈ (s.context.solve.apply t).rowVars, ¬ ResultTail s.context.solve ts cl.envRowVars r) :
    c'.apply (s.context.solve.apply t) = s.context.solve.apply t := by
  refine Substitution.apply_of_free fun v hv => ?_
  have hfree : ¬ s.context.solve.subst.Binds v := hacyclic.free_of_apply hv
  cases v with
  | type v =>
      rintro ⟨t, ht⟩
      exact hfree ⟨t, (congrArg (OrderedMap.find? · v) htypes).symm.trans ht⟩
  | row r =>
      rintro ⟨row, hrow⟩
      rcases (h.widens hacyclic).boundRow r row hrow with hbound | ⟨hresult, -⟩
      · exact hfree ⟨row, hbound⟩
      · exact ht r (Ty.mem_rowVars_iff.mpr hv) hresult

end Rewriting

def Rewrites (ts : List Ty) (envRowVars : List RowVarId) (c c' : Context) (f : Ty → Ty) (t : Ty) : Prop :=
  f t = c'.apply t ∨ f t = c.solve.apply t ∧ c'.subst.types = c.solve.subst.types ∧ ∃ r ∈ (f t).rowVars, ResultTail c.solve ts envRowVars r

theorem Commits.scopes {ts : List Ty} {cl : Closing} {c' : Context} (h : Commits session env ts c cl c') :
    ∃ f, cl.constraints = c.classes.takeScope.1.map (ClassConstraint.mapTy f) ∧
      c'.classes = c.classes.takeScope.2.map (ClassConstraint.mapTy f) ∧
      ∀ l, State.Ready ⟨c, l⟩ → State.Supports ⟨c, l⟩ session → c.solve.subst.Acyclic →
        ∀ k ∈ c.classes.toList, Rewrites ts cl.envRowVars c c' f k.ty := by
  obtain ⟨f, htaken, hstays, hf⟩ := h.taken
  have hclasses : c.solve.classes = c.classes.map (ClassConstraint.mapTy c.solve.apply) := Context.classes_solve
  have hcompose : ClassConstraint.mapTy f ∘ ClassConstraint.mapTy c.solve.apply = ClassConstraint.mapTy (f ∘ c.solve.apply) := rfl
  refine ⟨f ∘ c.solve.apply, ?_, ?_, fun l hs hsupports hacyclic k hk => ?_⟩
  · rw [htaken, hclasses, Scopes.takeScope_map, List.map_map, hcompose]
  · rw [hstays, hclasses, Scopes.takeScope_map, Scopes.map_map, hcompose]
  have habsorbed := Commits.apply_solve (s := ⟨c, l⟩) h hs hsupports hacyclic (hs.classes k hk).1
  rcases hf with rfl | ⟨rfl, htypes⟩
  · exact .inl habsorbed
  by_cases htail : ∃ r ∈ (c.solve.apply k.ty).rowVars, ResultTail c.solve ts cl.envRowVars r
  · exact .inr ⟨rfl, htypes hacyclic, htail⟩
  · have huntold := Commits.apply_of_untold (s := ⟨c, l⟩) h hacyclic (htypes hacyclic) fun r hr hresult => htail ⟨r, hr, hresult⟩
    exact .inl (huntold.symm.trans habsorbed)

/-- From `c` to `c'` each constraint of the innermost scope meets one fate, and what the enclosing scope gains are those that are
passed on, in their order. -/
structure Accounts (session : Session) (level : BindingLevel) (ts : List Ty) (c : Context) (cl : Closing) (schemes : List Scheme)
    (c' : Context) : Prop where
  fates : ∀ k ∈ cl.constraints, ∃! fate, Meets session level c cl schemes c' k fate
  scopes : ∃ f, cl.constraints = c.classes.takeScope.1.map (ClassConstraint.mapTy f) ∧
    (c'.classes = match level with
      | .nested => (c.classes.takeScope.2.map (ClassConstraint.mapTy f)).append (leftovers cl schemes)
      | .topLevel => c.classes.takeScope.2.map (ClassConstraint.mapTy f)) ∧
    ∀ l, State.Ready ⟨c, l⟩ → State.Supports ⟨c, l⟩ session → c.solve.subst.Acyclic →
      ∀ k ∈ c.classes.toList, Rewrites ts cl.envRowVars c c' f k.ty

theorem closeBoundary_accounts (c : Context) (node : NodeId) (ts : List Ty) (level : BindingLevel) (generalizable : Bool) :
    Ensures (closing session env node ts level generalizable) c fun cl _ =>
      Ensures (closeBoundary session env node ts level generalizable) c (Accounts session level ts c cl) := by
  have hclosing : Ensures (closing session env node ts level generalizable) c fun cl c₁ =>
      Commits session env ts c cl c₁ ∧ Gathers c cl c₁ ∧ Attends session c cl c₁ :=
    .intro ⟨closing_commits .., closing_gathers .., closing_attends ..⟩
  suffices h : ∀ cl c₁, Commits session env ts c cl c₁ ∧ Gathers c cl c₁ ∧ Attends session c cl c₁ →
      Ensures (conclude node level generalizable cl) c₁ (Accounts session level ts c cl) by
    rw [closeBoundary_eq]
    exact h _ _ hclosing
  rintro cl c₁ ⟨hcommits, hgathers, hattends⟩
  have hshares : Ensures (conclude node level generalizable cl) c₁ (Shares level cl c₁) := by
    cases generalizable with
    | true => exact conclude_shares node level cl
    | false => exact conclude_shares_plain node level cl
  have hconclude : Ensures (conclude node level generalizable cl) c₁ fun schemes c' =>
      c₁.Retains c' ∧ c'.subst = c₁.subst ∧ Shares level cl c₁ schemes c' :=
    .intro ⟨conclude_retains .., (conclude_passes ..).subst, hshares⟩
  apply hconclude.mono
  rintro schemes c' ⟨hretains, hsubst, hshares⟩
  have hmeets {k : ClassConstraint} (hk : k ∈ cl.constraints) := Closing.meets_iff hgathers hattends hretains hshares hk
  obtain ⟨f, htaken, hstays, hrewrites⟩ := hcommits.scopes
  refine ⟨fun k hk => ⟨cl.fate schemes k, (hmeets hk _).mpr rfl, fun fate h => ((hmeets hk fate).mp h).symm⟩, f, htaken, ?_, ?_⟩
  · cases level with
    | nested => exact hstays ▸ (hshares.leftovers.deferred rfl).1
    | topLevel => exact (hshares.leftovers.reported rfl).1.trans hstays
  · have happly : c'.apply = c₁.apply := congrArg Substitution.apply hsubst
    simp only [Rewrites, happly, hsubst]
    exact hrewrites

theorem closeBoundary_accounts_each :
    let c := (Context.ofSupply ⟨3, 0⟩).pushClassScope.addClass "Eq" .int 1 .operator |>.addClass "Foo" (.ofVar 2) 2 .operator
      |>.addClass "Eq" (.list (.ofVar 1)) 3 .operator |>.addClass "Eq" (.ofVar 0) 4 .operator
    let session : Session := ⟨.empty, .default, []⟩
    let env := Env.empty.nest [("y", .mono (.ofVar 0))]
    let ts := [Ty.fn [.ofVar 1] none (.ofVar 0)]
    let cl := ((closing session env 0 ts .nested true).run c).1
    let out := (closeBoundary session env 0 ts .nested true).run c
    cl.constraints.map (cl.fate out.1) = [.resolved, .rejected, .attached, .passed] ∧
      (∀ k ∈ cl.constraints, ∃! fate, Meets session .nested c cl out.1 out.2 k fate) ∧
      ∃ f, cl.constraints = c.classes.takeScope.1.map (ClassConstraint.mapTy f) ∧
        ∀ k ∈ c.classes.toList, Rewrites ts cl.envRowVars c out.2 f k.ty := by
  intro c session env ts cl out
  have hs : State.Ready ⟨c, none⟩ := ⟨Unifier.ready_empty rfl, nofun, nofun, nofun, nofun, by decide, nofun⟩
  have hsupports : State.Supports ⟨c, none⟩ session := by
    refine ⟨nofun, fun t ht => ?_⟩
    obtain rfl : t = .int := ht.resolve_right fun ⟨_, h⟩ => nomatch h
    exact ⟨by decide, State.owns_con _⟩
  have hacyclic : c.solve.subst.Acyclic := by
    have hempty : c.solve.subst = .empty := by decide +kernel
    exact hempty ▸ Substitution.acyclic_empty
  have haccounts : Accounts session .nested ts c cl out.1 out.2 := closeBoundary_accounts c 0 ts .nested true
  obtain ⟨f, htaken, -, hrewrites⟩ := haccounts.scopes
  exact ⟨by decide +kernel, haccounts.fates, f, htaken, hrewrites none hs hsupports hacyclic⟩

theorem closeBoundary_leaves_tail :
    let compare : Expr := .cond 5 (.binary 2 .eq (.var 0 "g") (.var 1 "g")) (.app 4 (.var 3 "g") [.lit 6 (.string "s")]) (.lit 7 (.string ""))
    let shout : Expr := .lambda 12 ["y"] (.binary 11 .concat (.var 9 "y") (.lit 10 (.string "t")))
    let value : Expr := .lambda 14 ["u"] (.app 13 (.lambda 8 ["g"] compare) [shout])
    let session : Session := ⟨.prelude, .default, []⟩
    let typed := (inferExpr session .empty value).run (Context.ofSupply ⟨100, 100⟩).pushClassScope
    let cl := ((closing session .empty 14 [typed.1.ty] .topLevel true).run typed.2).1
    let out := (closeBoundary session .empty 14 [typed.1.ty] .topLevel true).run typed.2
    ∃ k ∈ cl.constraints, (∀ fate, ¬ Meets session .topLevel typed.2 cl out.1 out.2 (k.mapTy out.2.apply) fate) ∧
      ∀ d ∈ out.2.errors, d.message ≠ (unsolved (k.mapTy out.2.apply)).message := by
  intro compare shout value session typed cl out
  have hlost : ∃ k ∈ cl.constraints, (k.mapTy out.2.apply).ty.typeVars = [] ∧ (session.registry.resolve (k.mapTy out.2.apply)).isOk = false ∧
      k.mapTy out.2.apply ∉ leftovers cl out.1 ∧ ∀ d ∈ out.2.errors, d.message ≠ (unsolved (k.mapTy out.2.apply)).message := by
    decide +kernel
  have hreported : ∀ d ∈ out.2.errors, d.category ≠ .missingInstance := by decide +kernel
  have hplain : ∀ scheme ∈ out.1, scheme.predicates = [] := by decide +kernel
  obtain ⟨k, hk, hvars, hresolve, hleft, hshown⟩ := hlost
  refine ⟨k, hk, fun fate => ?_, hshown⟩
  cases fate with
  | rejected =>
      rintro ⟨v, hv, -⟩
      rw [hvars] at hv
      cases hv
  | resolved =>
      rintro ⟨-, ⟨e, he, -⟩ | ⟨-, k₀, d, -, -, hcategory, ds, hds, d', hd', hsame, -⟩⟩
      · rw [he] at hresolve
        cases hresolve
      · exact hreported d' (hds ▸ List.mem_append_right _ hd') (hsame.trans hcategory)
  | attached =>
      rintro ⟨scheme, hscheme, hp⟩
      rw [hplain scheme hscheme] at hp
      cases hp
  | passed => exact fun h => hleft h.1

end InferM

end RowTyping
