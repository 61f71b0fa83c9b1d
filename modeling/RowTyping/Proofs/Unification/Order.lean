import RowTyping.Proofs.Unification.Completeness
import RowTyping.Proofs.Unification.Kinds

namespace RowTyping

theorem Row.Apart.of_models {A : Assignment} {s : Substitution} (hm : A.Models s) (hA : A.Ordered) (hs : s.Ordered) {r : Row}
    (h : r.Apart A) : r.Apart s.assignment := by
  intro l hl hmem
  apply h l hl
  cases hrest : r.rest with
  | none =>
      rw [hrest] at hmem
      cases hmem
  | some w =>
      rw [hrest] at hmem
      have hbare : (Substitution.variableRow w).Ordered :=
        Row.ordered_iff.mpr ⟨List.Pairwise.nil, fun f hf => (List.not_mem_nil hf).elim⟩
      have hrow : A.row w = ((s.applyRow (Substitution.variableRow w)).value A).tail := by
        rw [hm.applyRow hA hs hbare]
        exact (hA.nil_merge_tail w).symm
      have hkeys : l ∈ OrderedMap.keys (s.applyRow (Substitution.variableRow w)).fields := by
        simpa [Assignment.tail, Substitution.assignment, Row.explicit_eq, Row.tail] using hmem
      rw [Assignment.tail, hrow, Row.tail_value, OrderedMap.mem_keys_merge (hA.tail _)]
      exact .inl (by simpa using hkeys)

abbrev Goal.Apart (A : Assignment) (g : Goal) : Prop :=
  g.Both (Ty.Apart A) (Row.AllApart A)

theorem Goal.both_and {P P' : Ty → Prop} {Q Q' : Row → Prop} {g : Goal} :
    g.Both (fun t => P t ∧ P' t) (fun r => Q r ∧ Q' r) ↔ g.Both P Q ∧ g.Both P' Q' := by
  cases g <;> exact and_and_and_comm

theorem Goal.Both.imp {P P' : Ty → Prop} {Q Q' : Row → Prop} {g : Goal} (h : g.Both P Q) (hP : ∀ t, P t → P' t)
    (hQ : ∀ r, Q r → Q' r) : g.Both P' Q' := by
  cases g with
  | types => exact ⟨hP _ h.1, hP _ h.2⟩
  | rows => exact ⟨hQ _ h.1, hQ _ h.2⟩

namespace Unifier

variable {C : TypeVar → Prop} {κ : TypeVarId → Kind} {A : Assignment} {u : Unifier} {gs gs' : List Goal}

-- A goal that fails leaves its bindings to the next one.
def through (u : Unifier) (gs : List Goal) : Unifier :=
  gs.foldl (fun u g => (run g u).2) u

@[simp]
theorem through_cons (u : Unifier) (g : Goal) (gs : List Goal) : u.through (g :: gs) = (run g u).2.through gs := rfl

def SolvesAll (u : Unifier) : List Goal → Prop
  | [] => True
  | g :: gs => (run g u).1 = .ok () ∧ (run g u).2.SolvesAll gs

theorem run_moves (hu : u.Ready) {g : Goal} (hg : g.Within u.supply) : Moves u (run g u).2 :=
  (solves_run g u).moves hu (List.forall_mem_singleton.mpr hg)

theorem through_moves (hu : u.Ready) (hgs : ∀ g ∈ gs, g.Within u.supply) : Moves u (u.through gs) := by
  induction gs generalizing u with
  | nil => exact .refl
  | cons g gs ih =>
      rw [List.forall_mem_cons] at hgs
      have moves := run_moves hu hgs.1
      exact moves.trans (ih (moves.ready hu) fun g hg => (hgs.2 g hg).mono fun v => moves.covers)

theorem through_kinded (hs : u.subst.Kinded κ) (hgs : ∀ g ∈ gs, g.Kinded κ) : (u.through gs).subst.Kinded κ := by
  induction gs generalizing u with
  | nil => exact hs
  | cons g gs ih =>
      rw [List.forall_mem_cons] at hgs
      exact ih ((solves_run g u).kinded hs (List.forall_mem_singleton.mpr hgs.1)) hgs.2

theorem through_sound (hu : u.Ready) (hgs : ∀ g ∈ gs, g.Within u.supply) (hsolved : u.SolvesAll gs) (hA : A.Ordered)
    (hm : A.Models (u.through gs).subst) : ∀ g ∈ gs, g.Holds A := by
  induction gs generalizing u with
  | nil => simp
  | cons g gs ih =>
      rw [List.forall_mem_cons] at hgs
      have moves := run_moves hu hgs.1
      have hrest := fun g hg => (hgs.2 g hg).mono fun v => moves.covers
      have hm₁ := hm.of_extends (through_moves (moves.ready hu) hrest).extends
      have hfirst := (solves_run g u).sound (Verdict.ofAnswer_eq_solved.mpr hsolved.1) hu
        (List.forall_mem_singleton.mpr hgs.1) hA hm₁
      exact List.forall_mem_cons.mpr ⟨List.forall_mem_singleton.mp hfirst, ih (moves.ready hu) hrest hsolved.2 hm⟩

theorem through_continues (hu : u.Ready) (hgs : ∀ g ∈ gs, g.Within u.supply) (hA : A.Regular C)
    (hs : A.Satisfies C u.subst) (hsolved : ∀ g ∈ gs, g.Solved C A) :
    u.SolvesAll gs ∧ ∃ A', A.Continues C u.supply A' (u.through gs).subst := by
  induction gs generalizing u A with
  | nil => exact ⟨trivial, A, .refl hA hs⟩
  | cons g gs ih =>
      rw [List.forall_mem_cons] at hgs hsolved
      have moves := run_moves hu hgs.1
      obtain ⟨hok, _, A₁, hnext⟩ := run_continues hu hgs.1 hA hs hsolved.1
      obtain ⟨hall, A', hlast⟩ := ih (moves.ready hu) (fun g hg => (hgs.2 g hg).mono fun v => moves.covers) hnext.regular
        hnext.satisfies fun g hg => hnext.agree.solved (hgs.2 g hg) (hsolved.2 g hg)
      exact ⟨⟨hok, hall⟩, A', hnext.trans hlast fun v => moves.covers⟩

structure Settles (u : Unifier) (gs : List Goal) : Prop where
  solved : u.SolvesAll gs
  acyclic : (u.through gs).subst.Acyclic
  bindings : u.subst.All (Ty.Apart (u.through gs).subst.assignment) (Row.AllApart (u.through gs).subst.assignment)
  goals : ∀ g ∈ gs, g.Apart (u.through gs).subst.assignment

structure Solution (κ : TypeVarId → Kind) (u : Unifier) (gs : List Goal) (A : Assignment) : Prop where
  regular : A.Regular (TypeVar.HasKind κ)
  satisfies : A.Satisfies (TypeVar.HasKind κ) u.subst
  solved : ∀ g ∈ gs, g.Solved (TypeVar.HasKind κ) A

variable (hu : u.Ready) (hs : u.subst.Kinded κ)

include hu hs

theorem Settles.solution (h : u.Settles gs) (hgs : ∀ g ∈ gs, g.Within u.supply) (hkinds : ∀ g ∈ gs, g.Kinded κ) :
    Solution κ u gs ((u.through gs).subst.assignment.byKind κ) := by
  have moves := through_moves hu hgs
  have hordered := (moves.ready hu).within.ordered
  have hkinded := through_kinded hs hkinds
  have hregular := hkinded.regular hordered
  have hmodels := (h.acyclic.models hordered).byKind hkinded
  refine ⟨hregular, ⟨hmodels.of_extends moves.extends, ?_⟩, fun g hg => ⟨?_, ?_⟩⟩
  · exact ⟨fun id t ht => ⟨h.bindings.1 id t ht, hs.inside.1 id t ht⟩, fun id r hr => ⟨h.bindings.2 id r hr, hs.inside.2 id r hr⟩⟩
  · exact through_sound hu hgs h.solved hregular.ordered hmodels g hg
  · exact Goal.both_and.mpr ⟨h.goals g hg, hkinds g hg⟩

omit hs in
theorem Solution.settles (h : Solution κ u gs A) (hgs : ∀ g ∈ gs, g.Within u.supply) :
    u.Settles gs ∧ ∃ A', A.Continues (TypeVar.HasKind κ) u.supply A' (u.through gs).subst := by
  obtain ⟨hall, A', hlast⟩ := through_continues hu hgs h.regular h.satisfies h.solved
  have moves := through_moves hu hgs
  have hready := moves.ready hu
  have hA' := hlast.regular.ordered
  have hordered := hready.within.ordered
  have apart {r : Row} (hr : r.Apart A') : r.Apart (u.through gs).subst.assignment :=
    hr.of_models hlast.satisfies.models hA' hordered
  have hbindings := h.satisfies.agree hlast.agree hu.within hu.covers
  refine ⟨⟨hall, hlast.satisfies.acyclic hlast.regular hordered hready.chainless, ?_, fun g hg => ?_⟩, A', hlast⟩
  · exact ⟨fun id t ht r hr => apart ((hbindings.fits.1 id t ht).1 r hr),
      fun id row hrow r hr => apart ((hbindings.fits.2 id row hrow).1 r hr)⟩
  · have hsolved := hlast.agree.solved (hgs g hg) (h.solved g hg)
    exact hsolved.2.imp (fun t ht r hr => apart (ht.1 r hr)) fun row hrow r hr => apart (hrow.1 r hr)

-- Two problems with the same solutions: neither the order of the goals nor that of their sides matters.
theorem Settles.of_solved (h : u.Settles gs) (hgs : ∀ g ∈ gs, g.Within u.supply) (hgs' : ∀ g ∈ gs', g.Within u.supply)
    (hkinds : ∀ g ∈ gs, g.Kinded κ)
    (hsame : ∀ A, (∀ g ∈ gs, g.Solved (TypeVar.HasKind κ) A) → ∀ g ∈ gs', g.Solved (TypeVar.HasKind κ) A) :
    u.Settles gs' ∧ ∃ A', ((u.through gs).subst.assignment.byKind κ).Continues (TypeVar.HasKind κ) u.supply A'
      (u.through gs').subst := by
  obtain ⟨hregular, hsatisfies, hsolved⟩ := h.solution hu hs hgs hkinds
  exact Solution.settles hu ⟨hregular, hsatisfies, hsame _ hsolved⟩ hgs'

theorem Settles.perm (h : u.Settles gs) (hperm : gs.Perm gs') (hgs : ∀ g ∈ gs, g.Within u.supply)
    (hkinds : ∀ g ∈ gs, g.Kinded κ) : u.Settles gs' :=
  (h.of_solved hu hs hgs (fun g hg => hgs g (hperm.mem_iff.mpr hg)) hkinds
    fun _ hsolved g hg => hsolved g (hperm.mem_iff.mpr hg)).1

end Unifier

end RowTyping
