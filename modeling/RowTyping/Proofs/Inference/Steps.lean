import RowTyping.Proofs.Inference.Ensures
import RowTyping.Proofs.Inference.Resolving
/-!
The steps of inference. A run is made of operations on the context, all but one of which leave the table of dictionaries alone;
the other puts in what the registry answers for a constraint. If only ground constraints are put to the registry, the table
stays ground and no invariant is violated.
-/

namespace RowTyping

namespace Context

inductive Idle : Context → Context → Prop
  | enter (c : Context) (label : String) : Idle c (c.enter label)
  | leave (c : Context) : Idle c c.leave
  | log (c : Context) (e : Event) : Idle c (c.log e)
  | logAll (c : Context) (es : List Event) : Idle c (c.logAll es)
  | note (c : Context) (node : NodeId) (t : Ty) (rule : InferRule) : Idle c (c.note node t rule)
  | report (c : Context) (node : NodeId) (d : Diagnostic) : Idle c (c.report node d)
  | freshType (c : Context) : Idle c (InferM.freshTypeVar.run c).2
  | freshRow (c : Context) : Idle c (InferM.freshRow.run c).2
  | addEquation (c : Context) (node : NodeId) (reason : Reason) (g : Goal) : Idle c (c.addEquation node reason g)
  | flush (c : Context) : Idle c c.flush
  | literal (c : Context) (className : String) (t : Ty) (node : NodeId) : Idle c (c.addClass className t node .literal)

inductive Quiet : Context → Context → Prop
  | idle {c c' : Context} (h : Idle c c') : Quiet c c'
  | solve (c : Context) : Quiet c c.solve
  | addClass (c : Context) (className : String) (t : Ty) (node : NodeId) (origin : Origin) : Quiet c (c.addClass className t node origin)
  | pushClassScope (c : Context) : Quiet c c.pushClassScope
  | takeClassScope (c : Context) : Quiet c (InferM.takeClassScope.run c).2
  | deferClasses (c : Context) (ks : List ClassConstraint) : Quiet c (c.deferClasses ks)
  | applyDefaults (c : Context) (defaults : Substitution) : Quiet c (c.applyDefaults defaults)

def settle (r : Registry) (k : ClassConstraint) (told : Bool) (c : Context) : Context :=
  match r.resolve k with
  | .ok e =>
      let c := (c.log e.event).note k.node k.ty (.resolve k.className)
      if k.origin ≠ .literal then { c with resolved := c.resolved.record e } else c
  | .error (.missing d) => if told then c else c.report k.node d
  | .error (.internal v) => c.failInternal v

/-- Operations one after another, with the constraints that they put to the registry. -/
inductive Run (r : Registry) : Context → List ClassConstraint → Context → Prop
  | refl (c : Context) : Run r c [] c
  | quiet {c c' c'' : Context} {ks : List ClassConstraint} (h : Run r c ks c') (hquiet : Quiet c' c'') : Run r c ks c''
  | settle {c c' : Context} {ks : List ClassConstraint} (h : Run r c ks c') (k : ClassConstraint) (told : Bool) :
      Run r c (ks ++ [k]) (c'.settle r k told)

def Grounded (c : Context) : Prop :=
  ∀ e ∈ c.resolved.entries, e.ty.isGround = true

variable {r : Registry} {c c' c'' : Context} {k : ClassConstraint} {ks ks' : List ClassConstraint}

theorem Grounded.resolved_applyDefaults (hc : c.Grounded) (defaults : Substitution) : (c.applyDefaults defaults).resolved = c.resolved := by
  rw [applyDefaults_eq]
  split
  · rfl
  · exact ResolutionTable.apply_of_ground hc _

theorem internal_solveEquation (c : Context) (q : Equation) : (c.solveEquation q).internal = c.internal := by
  rw [solveEquation_eq]
  rcases Unifier.run q.goal c.unifier with ⟨_ | _, u⟩ <;> rfl

theorem internal_flush (c : Context) : c.flush.internal = c.internal := by
  rw [flush_eq]
  exact foldl_solveEquation internal_solveEquation _ _

theorem Idle.internal (h : Idle c c') : c'.internal = c.internal := by
  cases h with
  | flush => exact c.internal_flush
  | _ => rfl

theorem Idle.resolved (h : Idle c c') : c'.resolved = c.resolved := by
  cases h with
  | flush => exact c.resolved_flush
  | _ => rfl

theorem Quiet.internal (h : Quiet c c') : c'.internal = c.internal := by
  cases h with
  | idle h => exact h.internal
  | solve => exact c.internal_flush
  | applyDefaults defaults =>
      rw [Context.applyDefaults_eq]
      split <;> rfl
  | _ => rfl

theorem Quiet.resolved (h : Quiet c c') (hc : c.Grounded) : c'.resolved = c.resolved := by
  cases h with
  | idle h => exact h.resolved
  | solve => exact c.resolved_flush
  | applyDefaults defaults => exact hc.resolved_applyDefaults defaults
  | _ => rfl

theorem internal_settle (told : Bool) : (c.settle r k told).internal = none ↔ c.internal = none ∧ k.isGround = true := by
  rw [settle]
  cases hk : k.isGround with
  | false =>
      have hresolve : r.resolve k = .error (.internal (.nonGroundResolution k.className k.ty k.node)) := by simp [Registry.resolve, hk]
      rw [hresolve]
      simp [failInternal]
  | true =>
      rcases r.resolve_of_ground hk with ⟨e, hresolve⟩ | ⟨d, hresolve⟩ <;> rw [hresolve] <;> dsimp only <;> split <;>
        exact (and_iff_left rfl).symm

theorem Grounded.settle (hc : c.Grounded) (k : ClassConstraint) (told : Bool) : (c.settle r k told).Grounded := by
  rw [Context.settle]
  split
  next e hresolve =>
    dsimp only
    split
    · intro e' he'
      rcases ResolutionTable.mem_entries_record he' with rfl | he'
      · exact (Registry.resolve_ok hresolve).ground
      · exact hc e' he'
    · exact hc
  next =>
    split
    · exact hc
    · exact hc
  next => exact hc

theorem Run.trans (h : Run r c ks c') (h' : Run r c' ks' c'') : Run r c (ks ++ ks') c'' := by
  induction h' with
  | refl => rwa [List.append_nil]
  | quiet _ hquiet ih => exact ih.quiet hquiet
  | settle _ k told ih => exact List.append_assoc .. ▸ ih.settle k told

theorem Run.grounded (h : Run r c ks c') (hc : c.Grounded) : c'.Grounded := by
  induction h with
  | refl => exact hc
  | quiet _ hquiet ih => exact fun e he => ih e (hquiet.resolved ih ▸ he)
  | settle _ k told ih => exact ih.settle k told

theorem Run.internal_iff (h : Run r c ks c') : c'.internal = none ↔ c.internal = none ∧ ∀ k ∈ ks, k.isGround = true := by
  induction h with
  | refl => exact (and_iff_left (List.forall_mem_nil _)).symm
  | quiet _ hquiet ih => rw [hquiet.internal, ih]
  | settle _ k told ih => rw [internal_settle, ih, List.forall_mem_append, List.forall_mem_singleton, and_assoc]

end Context

namespace InferM

variable {r : Registry} {α β : Type}

structure Stepwise (r : Registry) (m : InferM α) : Prop where
  steps : ∀ c, ∃ ks, Context.Run r c ks (m.run c).2 ∧ ∀ k ∈ ks, k.isGround = true

theorem stepwise_pure (a : α) : Stepwise r (pure a) :=
  ⟨fun c => ⟨[], .refl c, List.forall_mem_nil _⟩⟩

theorem Stepwise.bind {m : InferM α} {f : α → InferM β} (hm : Stepwise r m) (hf : ∀ a, Stepwise r (f a)) : Stepwise r (m >>= f) := by
  refine ⟨fun c => ?_⟩
  obtain ⟨ks, hrun, hks⟩ := hm.steps c
  obtain ⟨ks', hrun', hks'⟩ := (hf (m.run c).1).steps (m.run c).2
  exact ⟨ks ++ ks', hrun.trans hrun', List.forall_mem_append.mpr ⟨hks, hks'⟩⟩

theorem stepwise_get {f : Context → InferM α} (hf : ∀ c, Stepwise r (f c)) : Stepwise r (get >>= f) :=
  ⟨fun c => (hf c).steps c⟩

theorem stepwise_quiet {m : InferM α} (h : ∀ c, Context.Quiet c (m.run c).2) : Stepwise r m :=
  ⟨fun c => ⟨[], .quiet (.refl c) (h c), List.forall_mem_nil _⟩⟩

theorem stepwise_modify {g : Context → Context} (h : ∀ c, Context.Quiet c (g c)) : Stepwise r (modify g) :=
  stepwise_quiet h

theorem stepwise_ite {p : Prop} [Decidable p] {m m' : InferM α} (h : p → Stepwise r m) (h' : ¬ p → Stepwise r m') :
    Stepwise r (if p then m else m') := by
  split
  next hp => exact h hp
  next hp => exact h' hp

theorem stepwise_forM {f : α → InferM Unit} (h : ∀ a, Stepwise r (f a)) (as : List α) : Stepwise r (as.forM f) := by
  induction as with
  | nil => exact stepwise_pure ()
  | cons a as ih => exact (h a).bind fun _ => ih

theorem stepwise_mapM {f : α → InferM β} (h : ∀ a, Stepwise r (f a)) (as : List α) : Stepwise r (as.mapM f) := by
  induction as with
  | nil => exact stepwise_pure []
  | cons a as ih =>
      rw [List.mapM_cons]
      refine (h a).bind fun _ => ?_
      exact ih.bind fun _ => stepwise_pure _

theorem stepwise_within {m : InferM α} (label : String) (hm : Stepwise r m) : Stepwise r (within label m) := by
  refine (stepwise_modify fun c => .idle (.enter c label)).bind fun _ => ?_
  refine hm.bind fun a => ?_
  exact (stepwise_modify fun c => .idle (.leave c)).bind fun _ => stepwise_pure a

theorem stepwise_addClass (className : String) (t : Ty) (node : NodeId) (origin : Origin) :
    Stepwise r (addClass className t node origin) :=
  stepwise_quiet fun c => .addClass c className t node origin

theorem stepwise_report (node : NodeId) (d : Diagnostic) : Stepwise r (report node d) :=
  stepwise_modify fun c => .idle (.report c node d)

theorem stepwise_settle {k : ClassConstraint} (hk : k.isGround = true) (told : Bool) :
    Stepwise r (modify (Context.settle r k told)) :=
  ⟨fun c => ⟨[k], .settle (.refl c) k told, List.forall_mem_singleton.mpr hk⟩⟩

end InferM

end RowTyping
