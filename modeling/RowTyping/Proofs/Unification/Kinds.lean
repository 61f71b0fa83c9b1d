import RowTyping.Proofs.Unification.Invariant
import RowTyping.Proofs.Unification.Solution

namespace RowTyping

def TypeVar.HasKind (κ : TypeVarId → Kind) (v : TypeVar) : Prop :=
  v.kind = κ v.id

instance (κ : TypeVarId → Kind) : DecidablePred (TypeVar.HasKind κ) :=
  fun _ => inferInstanceAs (Decidable (_ = _))

theorem forall_type_mem_iff {C : TypeVar → Prop} {os : List Occurrence} :
    (∀ v ∈ os.filterMap Occurrence.type?, C v) ↔ ∀ v, .type v ∈ os → C v := by
  refine forall_congr' fun v => imp_congr_left ?_
  rw [List.mem_filterMap]
  constructor
  · rintro ⟨o, ho, h⟩
    cases o with
    | type w => exact Option.some.inj h ▸ ho
    | tail => cases h
  · exact fun h => ⟨_, h, rfl⟩

instance (C : TypeVar → Prop) [DecidablePred C] (t : Ty) : Decidable (t.Over C) :=
  decidable_of_iff _ forall_type_mem_iff

instance (C : TypeVar → Prop) [DecidablePred C] (r : Row) : Decidable (r.Over C) :=
  decidable_of_iff _ forall_type_mem_iff

variable {κ : TypeVarId → Kind}

structure Substitution.Kinded (κ : TypeVarId → Kind) (s : Substitution) : Prop where
  inside : s.All (Ty.Over (TypeVar.HasKind κ)) (Row.Over (TypeVar.HasKind κ))
  kind : ∀ id t, s.lookupType id = some t → t.kind = κ id

namespace Substitution.Kinded

variable {s : Substitution}

theorem empty (κ : TypeVarId → Kind) : Substitution.empty.Kinded κ :=
  ⟨⟨nofun, nofun⟩, nofun⟩

theorem kind_chase (h : s.Kinded κ) (n : Nat) {t : Ty} (ht : t.Over (TypeVar.HasKind κ)) : (s.chase n t).kind = t.kind := by
  induction n generalizing t with
  | zero => rfl
  | succ n ih =>
      rw [chase_succ]
      cases t with
      | var v =>
          cases hv : s.lookupType v.id with
          | none => simp [assigned, hv]
          | some x =>
              have hkind := ih (h.inside.1 v.id x hv)
              simp only [Ty.subst_var, assigned, hv, Option.map_some, Option.getD_some, hkind, h.kind v.id x hv]
              exact (ht v (Ty.mem_occurrences_var.mpr rfl)).symm
      | _ => rfl

theorem kind_apply (h : s.Kinded κ) {t : Ty} (ht : t.Over (TypeVar.HasKind κ)) : (s.apply t).kind = t.kind :=
  h.kind_chase _ ht

end Substitution.Kinded

abbrev Goal.Kinded (κ : TypeVarId → Kind) (g : Goal) : Prop :=
  g.Both (Ty.Over (TypeVar.HasKind κ)) (Row.Over (TypeVar.HasKind κ))

theorem Row.Over.only {C : TypeVar → Prop} {r a : Row} (h : r.Over C) (k : Kind) (rest : Option RowVarId) :
    Row.Over C ⟨k, r.only a, rest⟩ := by
  obtain ⟨k', fs, rest'⟩ := r
  intro v hv
  rcases Row.mem_occurrences.mp hv with ⟨f, hf, hv⟩ | ⟨_, _, hv⟩
  · exact h v (Row.mem_occurrences.mpr (.inl ⟨f, List.mem_of_mem_filter hf, hv⟩))
  · cases hv

namespace Unifier

variable {u u' : Unifier} {n : Nat} {gs : List Goal} {verdict : Verdict}

theorem invariant_kinded (κ : TypeVarId → Kind) :
    Hereditary.Invariant (Ty.Over (TypeVar.HasKind κ)) (Row.Over (TypeVar.HasKind κ)) fun id t => t.kind = κ id where
  hereditary := hereditary_over _
  substitutive := substitutive_typeVars _
  only h k rest := h.only k rest
  binds hv _ hkind := hkind.symm.trans (hv _ (Ty.mem_occurrences_var.mpr rfl))

theorem Solves.kinded (h : Solves n u gs verdict u') (hs : u.subst.Kinded κ) (hgs : ∀ g ∈ gs, g.Kinded κ) :
    u'.subst.Kinded κ := by
  obtain ⟨hinside, hkind⟩ := h.invariant (invariant_kinded κ) ⟨hs.inside, hs.kind⟩ hgs
  exact ⟨hinside, hkind⟩

end Unifier

namespace Assignment

-- The same value for a variable whatever kind it is written with.
def byKind (A : Assignment) (κ : TypeVarId → Kind) : Assignment :=
  { A with type := fun v => A.type ⟨v.id, κ v.id⟩ }

variable {A : Assignment} {s : Substitution}

theorem byKind_agreeOn {o : Occurrence} (ho : ∀ v, o = .type v → v.HasKind κ) : (A.byKind κ).AgreeOn A o := by
  cases o with
  | type v => exact congrArg A.type (show (⟨v.id, κ v.id⟩ : TypeVar) = v by rw [← ho v rfl])
  | tail r k => rfl

theorem value_byKind {t : Ty} (ht : t.Over (TypeVar.HasKind κ)) : t.value (A.byKind κ) = t.value A :=
  Ty.value_congr fun _ ho => byKind_agreeOn fun v hv => ht v (hv ▸ ho)

theorem value_byKind_row {r : Row} (hr : r.Over (TypeVar.HasKind κ)) : r.value (A.byKind κ) = r.value A :=
  Ty.value_congr_row fun _ ho => byKind_agreeOn fun v hv => hr v (hv ▸ ho)

theorem Models.byKind (hm : A.Models s) (hs : s.Kinded κ) : (A.byKind κ).Models s where
  left id t ht k := by
    rw [value_byKind (hs.inside.1 id t ht)]
    exact hm.1 id t ht _
  right id r hr := by
    rw [value_byKind_row (hs.inside.2 id r hr)]
    exact hm.2 id r hr

end Assignment

theorem Ty.kind_explicit (t : Ty) : t.explicit.kind = t.kind := by
  cases t <;> rfl

theorem Ty.kind_of_not_var {t : Ty} (h : t.isVar = false) : t.kind = .star := by
  cases t with
  | var => cases h
  | _ => rfl

theorem Substitution.Kinded.regular {s : Substitution} (h : s.Kinded κ) (hs : s.Ordered) :
    (s.assignment.byKind κ).Regular (TypeVar.HasKind κ) := by
  have hkind (v : TypeVar) : ((s.assignment.byKind κ).type v).kind = κ v.id := by
    have hvar : (Ty.var ⟨v.id, κ v.id⟩).Over (TypeVar.HasKind κ) := fun w hw => by
      cases Ty.mem_occurrences_var.mp hw
      rfl
    calc ((s.assignment.byKind κ).type v).kind = (s.apply (.var ⟨v.id, κ v.id⟩)).explicit.kind := rfl
      _ = κ v.id := by rw [Ty.kind_explicit, h.kind_apply hvar]; rfl
  refine ⟨assignment_ordered hs, fun v => rfl, fun v w hv hw heq => ?_, fun v hv hvar => ?_⟩
  · calc v.kind = κ v.id := hv
      _ = κ w.id := by rw [← hkind v, heq, hkind w]
      _ = w.kind := hw.symm
  · calc v.kind = κ v.id := hv
      _ = .star := by rw [← hkind v, Ty.kind_of_not_var hvar]

end RowTyping
