import RowTyping.Proofs.Inference.Keeps

namespace RowTyping

open Unifier

namespace State

variable {s s' : State}

def Entails (s : State) (P : Assignment → Prop) : Prop :=
  ∀ A, s.Accepts A → P A

theorem Follows.entails {P : Assignment → Prop} (h : s.Follows s') (hP : s.Entails P) : s'.Entails P :=
  fun A hA => hP A (h.accepts hA)

theorem Entails.imp {P Q : Assignment → Prop} (hP : s.Entails P) (h : ∀ A, P A → Q A) : s.Entails Q :=
  fun A hA => h A (hP A hA)

theorem entails_of_errors {P : Assignment → Prop} (h : s.context.errors ≠ []) : s.Entails P :=
  fun _ hA => absurd hA.errors h

namespace Owns

theorem apply (hs : s.Ready) {t : Ty} (ht : s.Owns t) : s.Owns (s.subst.apply t) where
  within := hs.unifier.within.apply ht.within
  conforms φ hφ := (hs.conforms φ hφ).apply (fun _ => False.elim) hs.unifier.within.ordered ht.within.1 (ht.conforms φ hφ)
  shaped φ hφ := (hs.shaped φ hφ).apply substitutive_shaped (ht.shaped φ hφ)

end Owns

theorem OwnsRow.applyRow (hs : s.Ready) {r : Row} (hr : s.OwnsRow r) : s.OwnsRow (s.subst.applyRow r) where
  within := hs.unifier.within.applyRow hr.within
  conforms φ hφ := by
    have h := (hs.conforms φ hφ).applyRow (fun _ => False.elim) hs.unifier.within.ordered hr.within.1
      (Row.conforms_start_iff.mp (hr.conforms φ hφ))
    apply Row.conforms_start_iff.mpr
    rwa [Row.start, Substitution.applyRow_kind]
  shaped φ hφ := (hs.shaped φ hφ).applyRow substitutive_shaped (hr.shaped φ hφ)

theorem Ready.entails_apply (hs : s.Ready) {t : Ty} (ht : t.Ordered) : s.Entails fun A => (s.subst.apply t).value A = t.value A :=
  fun _ hA => hA.models.apply hA.ordered hs.unifier.within.ordered ht

theorem Ready.entails_applyRow (hs : s.Ready) {r : Row} (hr : r.Ordered) :
    s.Entails fun A => (s.subst.applyRow r).value A = r.value A :=
  fun _ hA => hA.models.applyRow hA.ordered hs.unifier.within.ordered hr

end State

namespace State

variable {s : State} {q : Equation}

theorem Ready.solveEquation (hs : s.Ready) (hq : s.OwnsGoal q.goal) :
    ∃ l, s.Follows ⟨s.context.solveEquation q, l⟩ ∧ Ready ⟨s.context.solveEquation q, l⟩ ∧
      Entails ⟨s.context.solveEquation q, l⟩ q.goal.Holds := by
  have hwithin : ∀ g ∈ [q.goal], g.Within s.supply := List.forall_mem_singleton.mpr (hq.imp (fun _ h => h.within) fun _ h => h.within)
  have hsolves := solves_run q.goal s.context.unifier
  have moves := hsolves.moves hs.unifier hwithin
  have hready := moves.ready hs.unifier
  obtain ⟨l, hlayout, hrecords, hconforms⟩ : ∃ l, Option.Rel (fun φ φ' : Layout => φ.Agrees φ' s.supply) s.layout l ∧
      (∀ φ ∈ l, φ.Records) ∧ ∀ φ ∈ l, (s.context.solveEquation q).subst.Conforms φ Nowhere := by
    have hlayout := hs.records
    have hconforms := hs.conforms
    have hgoal := fun φ hφ => Goal.conforms_of_both (hq.imp (fun _ h => h.conforms φ hφ) fun _ h => h.conforms φ hφ)
    generalize s.layout = l at hlayout hconforms hgoal
    cases l with
    | none => exact ⟨none, .none, nofun, nofun⟩
    | some φ =>
        obtain ⟨φ', hagree, hkeeps⟩ := hsolves.conforms hs.unifier hwithin φ
        refine ⟨some φ', .some hagree, ?_, ?_⟩
        · rintro _ ⟨⟩
          have hrecords := hlayout φ rfl
          exact ⟨fun k => hagree.tracks ▸ hrecords.tracks k, fun t => hagree.held ▸ hrecords.held t⟩
        · rintro _ ⟨⟩
          rw [Context.subst_solveEquation]
          exact hkeeps Nowhere (fun _ => False.elim) (hconforms φ rfl) (List.forall_mem_singleton.mpr (hgoal φ rfl))
  have hfollows : s.Follows ⟨s.context.solveEquation q, l⟩ := by
    obtain ⟨ds, hds, -⟩ := s.context.errors_solveEquation q
    refine ⟨fun v hv => ?_, ?_, hlayout, fun h => (List.append_eq_nil_iff.mp (hds ▸ h)).1, fun A hA => ?_, fun node e he => ?_⟩
    · rw [supply, Context.supply_solveEquation]
      exact moves.covers hv
    · rw [subst, Context.subst_solveEquation]
      exact moves.extends
    · have hwait := hA.equations
      rwa [Context.equations_solveEquation] at hwait
    · rwa [Context.resolved_solveEquation]
  have hsubst : (s.context.solveEquation q).unifier.subst = (run q.goal s.context.unifier).2.subst := Context.subst_solveEquation
  refine ⟨l, hfollows, ⟨⟨?_, ?_, ?_⟩, hrecords, hconforms, fun φ' hφ' => ?_, ?_, ?_, ?_⟩, fun A hA => ?_⟩
  · rw [hsubst]
    exact hready.chainless
  · rw [hsubst, Context.supply_solveEquation]
    exact hready.covers
  · rw [hsubst, Context.supply_solveEquation]
    exact hready.within
  · rw [subst, Context.subst_solveEquation]
    obtain ⟨φ, hφ, hagree⟩ := hfollows.agrees hφ'
    rw [hagree.positional]
    exact (hsolves.invariant invariant_shaped ⟨hs.shaped φ hφ, fun _ _ _ => trivial⟩
      (List.forall_mem_singleton.mpr (hq.imp (fun _ h => h.shaped φ hφ) fun _ h => h.shaped φ hφ))).1
  · rw [Context.equations_solveEquation]
    exact fun q' hq' => hfollows.ownsGoal (hs.equations q' hq')
  · rw [Context.classes_solveEquation]
    exact fun k hk => (hs.classes k hk).mono hfollows.covers
  · rw [Context.resolved_solveEquation]
    exact hs.resolved
  · obtain ⟨ds, hds, hok⟩ := s.context.errors_solveEquation q
    have hsolved := Verdict.ofAnswer_eq_solved.mpr (hok.mp (List.append_eq_nil_iff.mp (hds ▸ hA.errors)).2)
    have hmodels := hA.models
    rw [subst, Context.subst_solveEquation] at hmodels
    exact hsolves.sound hsolved hs.unifier hwithin hA.ordered hmodels _ (List.mem_singleton_self _)

theorem Ready.solveEquations (hs : s.Ready) {qs : List Equation} (hqs : ∀ q ∈ qs, s.OwnsGoal q.goal) :
    ∃ l, s.Follows ⟨qs.foldl Context.solveEquation s.context, l⟩ ∧ Ready ⟨qs.foldl Context.solveEquation s.context, l⟩ ∧
      ∀ q ∈ qs, Entails ⟨qs.foldl Context.solveEquation s.context, l⟩ q.goal.Holds := by
  induction qs generalizing s with
  | nil => exact ⟨s.layout, .refl s, hs, List.forall_mem_nil _⟩
  | cons q qs ih =>
      rw [List.forall_mem_cons] at hqs
      obtain ⟨l₁, h₁, hs₁, hq⟩ := hs.solveEquation hqs.1
      obtain ⟨l, h, hready, hrest⟩ := ih hs₁ fun q' hq' => h₁.ownsGoal (hqs.2 q' hq')
      exact ⟨l, h₁.trans h, hready, List.forall_mem_cons.mpr ⟨h.entails hq, hrest⟩⟩

section Classes

variable {s : State} {classes : Scopes ClassConstraint}

def withClasses (s : State) (classes : Scopes ClassConstraint) : State :=
  ⟨{ s.context with classes }, s.layout⟩

theorem Follows.withClasses (s : State) (classes : Scopes ClassConstraint) : s.Follows (s.withClasses classes) where
  covers _ hv := hv
  grows := .refl _
  layout := rel_refl _ _
  errors h := h
  equations _ hA := hA.equations
  resolved _ _ he := he

theorem Ready.withClasses (hs : s.Ready) (h : ∀ k ∈ classes.toList, k.ty.Within s.supply) : (s.withClasses classes).Ready where
  unifier := ⟨hs.unifier.chainless, hs.unifier.covers, hs.unifier.within⟩
  records := hs.records
  conforms := hs.conforms
  shaped := hs.shaped
  equations q hq := (Follows.withClasses s classes).ownsGoal (hs.equations q hq)
  classes := h
  resolved := hs.resolved

end Classes

end State

namespace InferM

variable {s : State}

theorem keeps_flush (hs : s.Ready) : Keeps flush s fun _ s' => s'.context.equations = .empty := by
  have hdrained : State.Ready ⟨{ s.context with equations := .empty }, s.layout⟩ :=
    ⟨⟨hs.unifier.chainless, hs.unifier.covers, hs.unifier.within⟩, hs.records, hs.conforms, hs.shaped, List.forall_mem_nil _,
      hs.classes, hs.resolved⟩
  have hqs : ∀ q ∈ s.context.equations.toList, State.OwnsGoal ⟨{ s.context with equations := .empty }, s.layout⟩ q.goal := fun q hq =>
    (hs.equations q hq).imp (fun _ h => ⟨h.within, h.conforms, h.shaped⟩) fun _ h => ⟨h.within, h.conforms, h.shaped⟩
  obtain ⟨l, h, hready, hsolved⟩ := hdrained.solveEquations hqs
  have hflush := s.context.flush_eq.symm
  rw [hflush] at h hready hsolved
  refine ⟨l, .of_follows ⟨h.covers, h.grows, h.layout, h.errors, fun A hA q hq => hsolved q hq A hA, h.resolved⟩
    Context.classes_flush, hready, Context.equations_flush⟩

theorem keeps_addEquation (hs : s.Ready) (node : NodeId) (reason : Reason) {g : Goal} (hg : s.OwnsGoal g) :
    Keeps (modify (Context.addEquation node reason g)) s fun _ s' => s'.Entails g.Holds := by
  have hlist : (s.context.addEquation node reason g).equations.toList = s.context.equations.toList ++ [⟨g, node, s.context.path, reason⟩] :=
    Scopes.toList_append _ _
  have leads : s.Leads ⟨s.context.addEquation node reason g, s.layout⟩ := by
    refine .of_follows ⟨fun _ hv => hv, .refl _, State.rel_refl _ _, fun h => h, fun A hA q hq => ?_, fun _ _ he => he⟩ rfl
    exact hA.equations q (hlist ▸ List.mem_append_left _ hq)
  refine ⟨s.layout, leads, ⟨⟨hs.unifier.chainless, hs.unifier.covers, hs.unifier.within⟩, hs.records, hs.conforms, hs.shaped,
    fun q hq => leads.ownsGoal ?_, hs.classes, hs.resolved⟩, fun A hA => ?_⟩
  · have hq : q ∈ (s.context.addEquation node reason g).equations.toList := hq
    rw [hlist, List.mem_append, List.mem_singleton] at hq
    rcases hq with hq | rfl
    · exact hs.equations q hq
    · exact hg
  · exact hA.equations ⟨g, node, s.context.path, reason⟩ (hlist ▸ List.mem_append_right _ (List.mem_singleton_self _))

theorem keeps_equate (hs : s.Ready) (node : NodeId) (reason : Reason) {e a : Ty} (he : s.Owns e) (ha : s.Owns a) :
    Keeps (equate node reason e a) s fun _ s' => s'.Entails fun A => e.value A = a.value A :=
  keeps_addEquation hs node reason (g := .types e a) ⟨he, ha⟩

theorem keeps_equateRows (hs : s.Ready) (node : NodeId) (reason : Reason) {e a : Row} (he : s.OwnsRow e) (ha : s.OwnsRow a) :
    Keeps (equateRows node reason e a) s fun _ s' => s'.Entails fun A => e.value A = a.value A :=
  keeps_addEquation hs node reason (g := .rows e a) ⟨he, ha⟩

theorem keeps_applied (hs : s.Ready) {t : Ty} (ht : s.Owns t) :
    Keeps (applied t) s fun t' s' => s'.Owns t' ∧ s'.Entails fun A => t'.value A = t.value A :=
  keeps_get (keeps_pure hs ⟨ht.apply hs, hs.entails_apply ht.within.1⟩)

theorem keeps_deferClasses (hs : s.Ready) {ks : List ClassConstraint} (hks : ∀ k ∈ ks, k.ty.Within s.supply) :
    Keeps (modify (Context.deferClasses ks)) s fun _ s' => ∀ k ∈ ks, k ∈ s'.context.classes.toList := by
  have hlist : (s.context.deferClasses ks).classes.toList = s.context.classes.toList ++ ks := Scopes.toList_append _ _
  have hid : s.context.classes.map (ClassConstraint.mapTy fun t => t) = s.context.classes := Scopes.map_id _
  refine ⟨s.layout, ⟨.withClasses s _, fun t => t, ks, ?_, fun _ ht => ht, fun _ _ _ _ => rfl⟩, hs.withClasses fun k hk => ?_,
    fun k hk => ?_⟩
  · rw [hid]
    rfl
  · have hk : k ∈ (s.context.deferClasses ks).classes.toList := hk
    rw [hlist, List.mem_append] at hk
    exact hk.elim (hs.classes k) (hks k)
  · change k ∈ (s.context.deferClasses ks).classes.toList
    exact hlist ▸ List.mem_append_right _ hk

theorem keeps_addClass (hs : s.Ready) (className : String) {t : Ty} (ht : t.Within s.supply) (node : NodeId) (origin : Origin) :
    Keeps (addClass className t node origin) s fun _ s' =>
      ∃ path, ⟨className, t, path, node, origin⟩ ∈ s'.context.classes.toList := by
  have hks : ∀ k ∈ [ClassConstraint.mk className t s.context.path node origin], k.ty.Within s.supply := List.forall_mem_singleton.mpr ht
  obtain ⟨l, hleads, hready, hmem⟩ := keeps_deferClasses hs hks
  exact ⟨l, hleads, hready, s.context.path, hmem _ (List.mem_singleton_self _)⟩

end InferM

end RowTyping
