import RowTyping.Proofs.Binding
import RowTyping.Proofs.Unification.Goals

namespace RowTyping

structure Hereditary.Invariant (P : Ty → Prop) (Q : Row → Prop) (R : TypeVarId → Ty → Prop) : Prop where
  hereditary : Hereditary P Q
  substitutive : Substitutive P Q
  only : ∀ {r a : Row}, Q r → ∀ k rest, Q ⟨k, r.only a, rest⟩
  binds : ∀ {v : TypeVar} {t : Ty}, P (.var v) → P t → v.kind = t.kind → R v.id t

def Substitution.AllBound (P : Ty → Prop) (Q : Row → Prop) (R : TypeVarId → Ty → Prop) (s : Substitution) : Prop :=
  s.All P Q ∧ ∀ id t, s.lookupType id = some t → R id t

namespace Unifier

variable {P : Ty → Prop} {Q : Row → Prop} {R : TypeVarId → Ty → Prop} {u u' : Unifier} {n : Nat} {gs : List Goal}
  {verdict : Verdict}

theorem BindsType.invariant (hP : Hereditary.Invariant P Q R) {v : TypeVar} {t : Ty} (h : BindsType u v t verdict u')
    (hs : u.subst.AllBound P Q R) (hv : P (.var v)) (ht : P t) : u'.subst.AllBound P Q R := by
  cases h with
  | same => exact hs
  | refused => exact hs
  | bound _ _ hkind =>
      refine ⟨hs.1.bindType ht, fun id x hx => ?_⟩
      rw [bindType_subst, Substitution.lookupType_bindType] at hx
      by_cases hid : id = v.id
      · rw [if_pos hid] at hx
        exact Option.some.inj hx ▸ hid ▸ hP.binds hv ht hkind
      · rw [if_neg hid] at hx
        exact hs.2 id x hx

theorem BindsTail.invariant {r : RowVarId} {row : Row} (h : BindsTail u r row verdict u') (hs : u.subst.AllBound P Q R)
    (hrow : Q row) : u'.subst.AllBound P Q R := by
  cases h with
  | same => exact hs
  | refused => exact hs
  | bound => exact ⟨hs.1.bindRow hrow, hs.2⟩

theorem SettlesTails.invariant (hP : Hereditary.Invariant P Q R) {e a : Row} (h : SettlesTails u e a verdict u')
    (hs : u.subst.AllBound P Q R) (he : Q e) (ha : Q a) : u'.subst.AllBound P Q R := by
  cases h with
  | agree => exact hs
  | labels => exact hs
  | expected r _ _ _ _ _ hbind => exact hbind.invariant hs (hP.only ha _ _)
  | actual r _ _ _ _ _ hbind => exact hbind.invariant hs (hP.only he _ _)
  | join r r' _ _ _ _ _ _ hax hbind =>
      rw [← hax] at hbind
      exact hbind.invariant hs (hP.only ha _ _)
  | shareRefused r r' _ _ _ _ _ _ hbind => exact hbind.invariant hs (hP.only ha _ _)
  | share r r' _ u₁ _ _ _ _ _ hfirst hsecond =>
      exact hsecond.invariant (hfirst.invariant hs (hP.only ha _ _)) (hP.only he _ _)

theorem Solves.invariant (hP : Hereditary.Invariant P Q R) (h : Solves n u gs verdict u') (hs : u.subst.AllBound P Q R)
    (hgs : ∀ g ∈ gs, g.Both P Q) : u'.subst.AllBound P Q R := by
  have hereditary := hP.hereditary
  induction h with
  | nil => exact hs
  | cons _ _ ihhead ihrest =>
      rw [List.forall_mem_cons] at hgs
      exact ihrest (ihhead hs (List.forall_mem_singleton.mpr hgs.1)) hgs.2
  | stop _ _ ih =>
      rw [List.forall_mem_cons] at hgs
      exact ih hs (List.forall_mem_singleton.mpr hgs.1)
  | exhausted => exact hs
  | identical => exact hs
  | bind _ hmeet hbind =>
      obtain ⟨he, ha⟩ := List.forall_mem_singleton.mp hgs
      have he := hs.1.apply hP.substitutive he
      have ha := hs.1.apply hP.substitutive ha
      rcases Ty.bind_of_meet hmeet with ⟨hx, rfl⟩ | ⟨hx, rfl⟩
      · exact hbind.invariant hP hs (hx ▸ he) ha
      · exact hbind.invariant hP hs (hx ▸ ha) he
  | parts _ hmeet _ ih =>
      obtain ⟨he, ha⟩ := List.forall_mem_singleton.mp hgs
      exact ih hs ((Ty.parts_of_meet hmeet).both hereditary.toInherited (hs.1.apply hP.substitutive he)
        (hs.1.apply hP.substitutive ha))
  | rows _ hmeet _ ih =>
      obtain ⟨he, ha⟩ := List.forall_mem_singleton.mp hgs
      have he := hs.1.apply hP.substitutive he
      have ha := hs.1.apply hP.substitutive ha
      obtain ⟨hx, hy⟩ := Ty.rows_of_meet hmeet
      rw [hx] at he
      rw [hy] at ha
      exact ih hs (List.forall_mem_singleton.mpr ⟨hereditary.record he, hereditary.record ha⟩)
  | clash => exact hs
  | kinds => exact hs
  | equal => exact hs
  | fields _ _ _ _ ih =>
      obtain ⟨he, ha⟩ := List.forall_mem_singleton.mp hgs
      exact ih hs (Row.commonGoals_both hereditary.toInherited (hs.1.applyRow hP.substitutive he)
        (hs.1.applyRow hP.substitutive ha))
  | restart _ _ _ _ _ ihfields ih =>
      obtain ⟨he, ha⟩ := List.forall_mem_singleton.mp hgs
      have he := hs.1.applyRow hP.substitutive he
      have ha := hs.1.applyRow hP.substitutive ha
      exact ih (ihfields hs (Row.commonGoals_both hereditary.toInherited he ha))
        (List.forall_mem_singleton.mpr ⟨hereditary.residual _ he, hereditary.residual _ ha⟩)
  | tails _ _ _ _ htails ih =>
      obtain ⟨he, ha⟩ := List.forall_mem_singleton.mp hgs
      have he := hs.1.applyRow hP.substitutive he
      have ha := hs.1.applyRow hP.substitutive ha
      exact htails.invariant hP (ih hs (Row.commonGoals_both hereditary.toInherited he ha)) he ha

end Unifier

end RowTyping
