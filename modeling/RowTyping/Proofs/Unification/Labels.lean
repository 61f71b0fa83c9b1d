import RowTyping.Proofs.Reach
import RowTyping.Proofs.Unification.Layouts
import RowTyping.Proofs.Unification.Order

namespace RowTyping

abbrev Nowhere : Assignment → Prop :=
  fun _ => False

def Layout.Total (φ : Layout) : Prop :=
  ∀ k, φ.tracks k = true

variable {φ φ' : Layout} {A : Assignment}

theorem Layout.Agrees.total {sup : Supply} (h : φ.Agrees φ' sup) (hφ : φ.Total) : φ'.Total :=
  fun k => h.tracks ▸ hφ k

section Apart

variable {M : Assignment → Prop} (hφ : φ.Total) (hA : A.Respects φ)

include hφ hA

theorem Ty.Conforms.apart {t : Ty} (h : t.Conforms φ M) : t.Apart A :=
  fun r hr => (h r hr).apart (hφ r.kind) hA

theorem Row.ConformsIn.allApart {before : Option Fields} {r : Row} (h : r.ConformsIn φ M before) : r.AllApart A :=
  Row.allApart_iff.mpr ⟨h.1.apart (hφ r.kind) hA, fun f hf => (h.2 f hf).apart hφ hA⟩

theorem Substitution.Conforms.allApart {s : Substitution} (h : s.Conforms φ M) : s.All (Ty.Apart A) (Row.AllApart A) :=
  ⟨fun id t ht => (h.1 id t ht).apart hφ hA, fun id r hr => (h.2 id r hr).allApart hφ hA⟩

end Apart

-- Each row of a goal begins anew, with nothing before it.
def Goal.ConformsAnew (φ : Layout) (M : Assignment → Prop) (g : Goal) : Prop :=
  g.Both (Ty.Conforms φ M) fun r => ∀ r' ∈ r.rows, r'.Conforms φ M (r'.start φ)

theorem Goal.ConformsAnew.agrees {M : Assignment → Prop} {sup : Supply} (hagree : φ.Agrees φ' sup) {g : Goal}
    (h : g.ConformsAnew φ M) (hg : g.Within sup) : g.ConformsAnew φ' M := by
  have row {r : Row} (hr : r.Within sup) (h : ∀ r' ∈ r.rows, r'.Conforms φ M (r'.start φ)) :
      ∀ r' ∈ r.rows, r'.Conforms φ' M (r'.start φ') := by
    have hin := (Row.conforms_start_iff.mp h).agrees hagree hr
    rw [Row.start, ← hagree.tracks] at hin
    exact Row.conforms_start_iff.mpr hin
  cases g with
  | types => exact ⟨h.1.agrees hagree hg.1, h.2.agrees hagree hg.2⟩
  | rows => exact ⟨row hg.1 h.1, row hg.2 h.2⟩

theorem Substitution.conforms_empty (φ : Layout) (M : Assignment → Prop) : empty.Conforms φ M :=
  ⟨nofun, nofun⟩

namespace Unifier

variable {u : Unifier} {gs : List Goal}

theorem through_conforms (hu : u.Ready) (hgs : ∀ g ∈ gs, g.Within u.supply) (hs : u.subst.Conforms φ Nowhere)
    (hgoals : ∀ g ∈ gs, g.ConformsAnew φ Nowhere) :
    ∃ φ', φ.Agrees φ' u.supply ∧ (u.through gs).subst.Conforms φ' Nowhere := by
  induction gs generalizing u φ with
  | nil => exact ⟨φ, .refl _ _, hs⟩
  | cons g gs ih =>
      rw [List.forall_mem_cons] at hgs hgoals
      have moves := run_moves hu hgs.1
      obtain ⟨φ₁, hagree, hconf⟩ := (solves_run g u).conforms hu (List.forall_mem_singleton.mpr hgs.1) φ
      have hs₁ := hconf Nowhere nofun hs (List.forall_mem_singleton.mpr (Goal.conforms_of_both hgoals.1))
      obtain ⟨φ₂, hagree', hconf'⟩ := ih (moves.ready hu) (fun g hg => (hgs.2 g hg).mono fun v => moves.covers) hs₁
        fun g hg => (hgoals.2 g hg).agrees hagree (hgs.2 g hg)
      exact ⟨φ₂, hagree.trans hagree' fun v => moves.covers, hconf'⟩

theorem settles_iff (hu : u.Ready) (hgs : ∀ g ∈ gs, g.Within u.supply) (hφ : φ.Total) (hs : u.subst.Conforms φ Nowhere)
    (hgoals : ∀ g ∈ gs, g.ConformsAnew φ Nowhere) :
    u.Settles gs ↔ u.SolvesAll gs ∧ (u.through gs).subst.Acyclic := by
  refine ⟨fun h => ⟨h.solved, h.acyclic⟩, fun ⟨hall, hacyclic⟩ => ?_⟩
  obtain ⟨φ', hagree, hconf⟩ := through_conforms hu hgs hs hgoals
  have hready := (through_moves hu hgs).ready hu
  have hφ' := hagree.total hφ
  have hrespects := hconf.respects nofun hready.within.ordered
  refine ⟨hall, hacyclic, (hs.agrees hagree hu.within hu.covers).allApart hφ' hrespects, fun g hg => ?_⟩
  exact ((hgoals g hg).agrees hagree (hgs g hg)).imp (fun t ht => ht.apart hφ' hrespects) fun r hr =>
    (Row.conforms_start_iff.mp hr).allApart hφ' hrespects

end Unifier

-- The labels that every row with a given tail has.
def Layout.ofLabels (L : RowVarId → List Label) : Layout where
  positional := true
  tracks _ := true
  tracks_records := rfl
  fields w := some fun l => if l ∈ L w then some .unit else none
  held _ := False
  held_subst h := h

def Row.LabelledBy (L : RowVarId → List Label) (r : Row) : Prop :=
  ∀ w, r.rest = some w → ∀ l, l ∈ r.labels ↔ l ∈ L w

abbrev Goal.LabelledBy (L : RowVarId → List Label) (g : Goal) : Prop :=
  g.Both (fun t => ∀ r ∈ t.rows, r.LabelledBy L) fun r => ∀ r' ∈ r.rows, r'.LabelledBy L

section Labels

variable {L : RowVarId → List Label}

theorem Layout.total_ofLabels (L : RowVarId → List Label) : (ofLabels L).Total :=
  fun _ => rfl

theorem Row.LabelledBy.conforms {r : Row} (h : r.LabelledBy L) :
    r.Conforms (.ofLabels L) Nowhere (r.start (.ofLabels L)) := by
  refine .tracked rfl (fun _ _ => rfl) fun w hw => ⟨_, rfl, fun l => ?_, nofun⟩
  have hlabel := h w hw l
  rw [labels, OrderedMap.mem_keys_iff] at hlabel
  rw [Fields.join, get?]
  cases hget : OrderedMap.find? r.fields l with
  | none => simp_all [Fields.empty]
  | some t => simp_all

theorem Goal.LabelledBy.conforms {g : Goal} (h : g.LabelledBy L) : g.ConformsAnew (.ofLabels L) Nowhere :=
  Goal.Both.imp h (fun _ ht r hr => (ht r hr).conforms) fun _ hrow r hr => (hrow r hr).conforms

end Labels

end RowTyping
