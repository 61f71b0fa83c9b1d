import Mathlib.Data.Set.Basic
import RowTyping.Proofs.Unification.Labels
import RowTyping.Proofs.Unification.Stability

namespace RowTyping

/-- The row variables that end records, and the labels of the records before them. -/
structure Labelling where
  records : Set RowVarId
  labels : RowVarId → Set Label

/-- A row that stands behind the labels given: it has none of them, and its tail comes after its own labels too. -/
structure Row.Behind (L : Labelling) (before : Set Label) (r : Row) : Prop where
  tail_kind : ∀ w, r.rest = some w → (w ∈ L.records ↔ r.kind = .recordRow)
  own_labels : r.kind = .recordRow → ∀ l ∈ r.labels, l ∉ before
  tail_labels : r.kind = .recordRow → ∀ w, r.rest = some w → L.labels w = before ∪ {l | l ∈ r.labels}

def Ty.Labelled (L : Labelling) (t : Ty) : Prop :=
  ∀ r ∈ t.rows, r.Behind L ∅

def Row.Labelled (L : Labelling) (r : Row) : Prop :=
  ∀ r' ∈ r.rows, r'.Behind L ∅

structure Substitution.Labelled (L : Labelling) (s : Substitution) : Prop where
  types : ∀ id t, s.lookupType id = some t → t.Labelled L
  row_kind : ∀ id r, s.lookupRow id = some r → (id ∈ L.records ↔ r.kind = .recordRow)
  rows : ∀ id r, s.lookupRow id = some r → r.Behind L (L.labels id)
  fields : ∀ id r, s.lookupRow id = some r → ∀ f ∈ r.fields, f.2.Labelled L

/-- The fields of the tail win in `applyRow`: the row keeps its own where the tail has none of their labels. -/
def Substitution.KeepsFields (L : Labelling) (s : Substitution) : Prop :=
  ∀ (before : Set Label) (r : Row), r.Behind L before → r.kind = .recordRow →
    ∀ l t, r.get? l = some t → (s.applyRow r).get? l = some (s.apply t)

structure Labelling.Extends (L' L : Labelling) (sup : Supply) : Prop where
  records : ∀ w < sup.nextRow, w ∈ L'.records ↔ w ∈ L.records
  labels : ∀ w < sup.nextRow, L'.labels w = L.labels w

variable {L L' : Labelling} {φ φ' : Layout}

namespace Labelling

structure Describes (L : Labelling) (φ : Layout) : Prop where
  tracks : ∀ k, φ.tracks k = true ↔ k = .recordRow
  held : ∀ t, φ.held t
  records : ∀ w, w ∈ L.records ↔ φ.fields w ≠ none
  labels : ∀ w fs, φ.fields w = some fs → L.labels w = {l | fs l ≠ none}

open Classical in
noncomputable def layout (L : Labelling) : Layout where
  positional := true
  tracks k := decide (k = .recordRow)
  tracks_records := decide_eq_true rfl
  fields w := if w ∈ L.records then some fun l => if l ∈ L.labels w then some .unit else none else none
  held _ := True
  held_subst _ := trivial

theorem describes_layout (L : Labelling) : L.Describes L.layout where
  tracks k := by simp [layout]
  held _ := trivial
  records w := by simp [layout]
  labels w fs hfs := by
    obtain ⟨_, rfl⟩ : w ∈ L.records ∧ _ = fs := by simpa [layout] using hfs
    simp

open Classical in
theorem Describes.extend {sup : Supply} (h : L.Describes φ) (hagree : φ.Agrees φ' sup) :
    ∃ L' : Labelling, L'.Extends L sup ∧ L'.Describes φ' := by
  refine ⟨⟨{w | φ'.fields w ≠ none}, fun w => (φ'.fields w).elim (L.labels w) fun fs => {l | fs l ≠ none}⟩,
    ⟨fun w hw => ?_, fun w hw => ?_⟩, ⟨?_, ?_, fun w => Iff.rfl, fun w fs hfs => ?_⟩⟩
  · rw [Set.mem_ofPred_eq, hagree.fields w hw, h.records]
  · cases hfs : φ.fields w with
    | none => simp [hagree.fields w hw, hfs]
    | some fs => simp [hagree.fields w hw, hfs, h.labels w fs hfs]
  · exact hagree.tracks ▸ h.tracks
  · exact hagree.held ▸ h.held
  · simp [hfs]

end Labelling

section Description

variable (h : L.Describes φ)

include h

theorem Row.conforms_none_iff {r : Row} : r.Conforms φ Nowhere none ↔
    r.kind ≠ .recordRow ∧ ∀ w, r.rest = some w → w ∉ L.records := by
  constructor
  · rintro ⟨hkind, _, hrest⟩
    refine ⟨fun hrec => ?_, fun w hw hmem => (h.records w).mp hmem (hrest w hw)⟩
    rw [(h.tracks _).mpr hrec] at hkind
    cases hkind
  · rintro ⟨hkind, hrest⟩
    refine .untracked (Bool.eq_false_iff.mpr ((h.tracks _).not.mpr hkind)) (fun f _ => h.held f.2) fun w hw => ?_
    exact not_not.mp ((h.records w).not.mp (hrest w hw))

theorem Row.conforms_some_iff {r : Row} {fs : Fields} : r.Conforms φ Nowhere (some fs) ↔
    r.kind = .recordRow ∧ r.Behind L {l | fs l ≠ none} := by
  have hjoin (l : Label) : fs.join r l ≠ none ↔ fs l ≠ none ∨ l ∈ r.labels := by
    rw [Ne, Fields.join_eq_none]
    tauto
  constructor
  · intro hconf
    cases hconf with
    | tracked htracks hlabels hrest =>
        have hkind := (h.tracks _).mp htracks
        refine ⟨hkind, fun w hw => ?_, fun _ l hl hne => hne (hlabels l hl), fun _ w hw => ?_⟩
        · obtain ⟨gs, hgs, _⟩ := hrest w hw
          simp [h.records, hgs, hkind]
        · obtain ⟨gs, hgs, hsame⟩ := hrest w hw
          rw [h.labels w gs hgs]
          ext l
          simpa [← hsame.eq_none_iff] using hjoin l
  · rintro ⟨hkind, hbehind⟩
    refine .tracked ((h.tracks _).mpr hkind) (fun l hl => by simpa using hbehind.own_labels hkind l hl) fun w hw => ?_
    obtain ⟨gs, hgs⟩ := Option.ne_none_iff_exists'.mp ((h.records w).mp ((hbehind.tail_kind w hw).mpr hkind))
    refine ⟨gs, hgs, fun l => ?_, nofun⟩
    have hlabels := Set.ext_iff.mp ((h.labels w gs hgs).symm.trans (hbehind.tail_labels hkind w hw)) l
    rw [Bool.eq_iff_iff, Option.isSome_iff_ne_none, Option.isSome_iff_ne_none, hjoin]
    simpa using hlabels.symm

theorem Row.conforms_start_iff_behind {r : Row} : r.Conforms φ Nowhere (r.start φ) ↔ r.Behind L ∅ := by
  rw [start]
  by_cases hkind : r.kind = .recordRow
  · rw [if_pos ((h.tracks _).mpr hkind), conforms_some_iff h]
    simp [hkind, Fields.empty]
  · rw [if_neg ((h.tracks _).not.mpr hkind), conforms_none_iff h]
    refine ⟨fun hconf => ⟨fun w hw => ?_, ?_, ?_⟩, fun hbehind => ⟨hkind, fun w hw => ?_⟩⟩
    · simp [hkind, hconf.2 w hw]
    · exact fun hrec => absurd hrec hkind
    · exact fun hrec => absurd hrec hkind
    · simp [hbehind.tail_kind w hw, hkind]

theorem Ty.conforms_iff_labelled {t : Ty} : t.Conforms φ Nowhere ↔ t.Labelled L :=
  forall₂_congr fun _ _ => Row.conforms_start_iff_behind h

theorem Row.conforms_iff_labelled {r : Row} : (∀ r' ∈ r.rows, r'.Conforms φ Nowhere (r'.start φ)) ↔ r.Labelled L :=
  forall₂_congr fun _ _ => Row.conforms_start_iff_behind h

theorem Goal.conformsAnew_iff_labelled {g : Goal} :
    g.ConformsAnew φ Nowhere ↔ g.Both (Ty.Labelled L) (Row.Labelled L) := by
  cases g with
  | types => exact and_congr (Ty.conforms_iff_labelled h) (Ty.conforms_iff_labelled h)
  | rows => exact and_congr (Row.conforms_iff_labelled h) (Row.conforms_iff_labelled h)

theorem Row.conforms_fields_iff {r : Row} {id : RowVarId} : r.Conforms φ Nowhere (φ.fields id) ↔
    (id ∈ L.records ↔ r.kind = .recordRow) ∧ r.Behind L (L.labels id) := by
  cases hfs : φ.fields id with
  | some fs =>
      have hmem : id ∈ L.records := (h.records id).mpr (by simp [hfs])
      rw [conforms_some_iff h, h.labels id fs hfs]
      simp [hmem]
  | none =>
      have hmem : id ∉ L.records := fun hmem => (h.records id).mp hmem hfs
      rw [conforms_none_iff h]
      constructor
      · rintro ⟨hkind, hrest⟩
        exact ⟨by simp [hmem, hkind], fun w hw => by simp [hkind, hrest w hw], fun hrec => absurd hrec hkind,
          fun hrec => absurd hrec hkind⟩
      · rintro ⟨hiff, hbehind⟩
        have hkind : r.kind ≠ .recordRow := fun hrec => hmem (hiff.mpr hrec)
        exact ⟨hkind, fun w hw => by simp [hbehind.tail_kind w hw, hkind]⟩

theorem Substitution.conforms_iff_labelled {s : Substitution} : s.Conforms φ Nowhere ↔ s.Labelled L := by
  constructor
  · rintro ⟨htypes, hrows⟩
    refine ⟨fun id t ht => ?_, fun id r hr => ?_, fun id r hr => ?_, fun id r hr f hf => ?_⟩
    · exact (Ty.conforms_iff_labelled h).mp (htypes id t ht)
    · exact ((Row.conforms_fields_iff h).mp (hrows id r hr).1).1
    · exact ((Row.conforms_fields_iff h).mp (hrows id r hr).1).2
    · exact (Ty.conforms_iff_labelled h).mp ((hrows id r hr).2 f hf)
  · rintro ⟨htypes, hkinds, hrows, hfields⟩
    refine ⟨fun id t ht => ?_, fun id r hr => ⟨?_, fun f hf => ?_⟩⟩
    · exact (Ty.conforms_iff_labelled h).mpr (htypes id t ht)
    · exact (Row.conforms_fields_iff h).mpr ⟨hkinds id r hr, hrows id r hr⟩
    · exact (Ty.conforms_iff_labelled h).mpr (hfields id r hr f hf)

end Description

namespace Substitution

variable {s : Substitution}

theorem Labelled.chaseRow_disjoint (hs : s.Labelled L) (hord : s.Ordered) {id : RowVarId} {r : Row}
    (hr : s.lookupRow id = some r) (hrec : id ∈ L.records) (n : Nat) :
    ∀ l ∈ (s.chaseRow n r).labels, l ∉ L.labels id := by
  have h := L.describes_layout
  have hconf := (conforms_iff_labelled h).mpr hs
  have hchase := ((hconf.chase_both nofun hord n).2 _ r (hord.2 id r hr) (hconf.2 id r hr)).1
  obtain ⟨hiff, hbehind⟩ := (Row.conforms_fields_iff h).mp hchase
  exact hbehind.own_labels (hiff.mp hrec)

theorem Labelled.keepsFields (hs : s.Labelled L) (hord : s.Ordered) (hacyclic : s.Acyclic) : s.KeepsFields L := by
  intro before r hbehind hkind l t ht
  have hasc : ∀ id x, s.assignedRow s.applyRow id = some x → OrderedMap.Ascending x.fields := by
    intro id x hx
    obtain ⟨row, hrow, rfl⟩ := Option.map_eq_some_iff.mp hx
    exact (Row.ordered_iff.mp ((All.chase_both substitutive_ordered hord s.depth).2 row (hord.2 id row hrow))).1
  have htail : (r.rest.bind (s.assignedRow s.applyRow)).bind (·.get? l) = none := by
    refine Option.bind_eq_none_iff.mpr fun x hx => ?_
    obtain ⟨w, hw, hx⟩ := Option.bind_eq_some_iff.mp hx
    obtain ⟨row, hrow, rfl⟩ := Option.map_eq_some_iff.mp hx
    refine OrderedMap.find?_eq_none_iff.mpr fun hmem => ?_
    apply hs.chaseRow_disjoint hord hrow ((hbehind.tail_kind w hw).mpr hkind) s.depth l hmem
    rw [hbehind.tail_labels hkind w hw]
    exact .inr (OrderedMap.mem_keys_of_find? ht)
  obtain ⟨k, fs, rest⟩ := r
  rw [Row.get?] at ht
  rw [hacyclic.applyRow_eq, Row.get?_substRow hasc, htail, Option.none_or, ht, Option.map_some, hacyclic.apply_eq]

end Substitution

namespace Unifier

variable {u : Unifier}

theorem run_labelled (hu : u.Ready) (hs : u.subst.Labelled L) {g : Goal} (hg : g.Within u.supply)
    (hgoal : g.Both (Ty.Labelled L) (Row.Labelled L)) :
    ∃ L', L'.Extends L u.supply ∧ (run g u).2.subst.Labelled L' ∧ g.Both (Ty.Labelled L') (Row.Labelled L') := by
  have h := L.describes_layout
  have hgs := List.forall_mem_singleton.mpr hg
  have hanew := (Goal.conformsAnew_iff_labelled h).mpr hgoal
  obtain ⟨φ', hagree, hconf⟩ := (solves_run g u).conforms hu hgs L.layout
  obtain ⟨L', hextends, h'⟩ := h.extend hagree
  have hrun := hconf Nowhere nofun ((Substitution.conforms_iff_labelled h).mpr hs)
    (List.forall_mem_singleton.mpr (Goal.conforms_of_both hanew))
  exact ⟨L', hextends, (Substitution.conforms_iff_labelled h').mp hrun,
    (Goal.conformsAnew_iff_labelled h').mp (hanew.agrees hagree hg)⟩

theorem unify_labelled (hacyclic : u.subst.Acyclic) (hcovers : ∀ v, u.subst.Binds v → u.supply.Covers v)
    (hwithin : u.subst.Within u.supply) (hs : u.subst.Labelled L) :
    (∀ e a : Ty, e.Within u.supply → a.Within u.supply → e.Labelled L → a.Labelled L →
      ∃ L', L'.Extends L u.supply ∧ (u.unify e a).2.subst.Labelled L' ∧ e.Labelled L' ∧ a.Labelled L' ∧
        ((u.unify e a).2.subst.Acyclic → (u.unify e a).2.subst.KeepsFields L')) ∧
      ∀ e a : Row, e.Within u.supply → a.Within u.supply → e.Labelled L → a.Labelled L →
        ∃ L', L'.Extends L u.supply ∧ (u.unifyRows e a).2.subst.Labelled L' ∧ e.Labelled L' ∧ a.Labelled L' ∧
          ((u.unifyRows e a).2.subst.Acyclic → (u.unifyRows e a).2.subst.KeepsFields L') := by
  have hu : u.Ready := ⟨hacyclic.chainless, hcovers, hwithin⟩
  have hordered {g : Goal} (hg : g.Within u.supply) : (run g u).2.subst.Ordered :=
    ((run_moves hu hg).ready hu).within.ordered
  simp only [unify_eq, unifyRows_eq]
  constructor
  · intro e a he ha hle hla
    obtain ⟨L', hextends, hrun, hle', hla'⟩ := run_labelled hu hs (g := .types e a) ⟨he, ha⟩ ⟨hle, hla⟩
    exact ⟨L', hextends, hrun, hle', hla', hrun.keepsFields (hordered ⟨he, ha⟩)⟩
  · intro e a he ha hle hla
    obtain ⟨L', hextends, hrun, hle', hla'⟩ := run_labelled hu hs (g := .rows e a) ⟨he, ha⟩ ⟨hle, hla⟩
    exact ⟨L', hextends, hrun, hle', hla', hrun.keepsFields (hordered ⟨he, ha⟩)⟩

theorem unifyRows_labelled_restart :
    let u := { ofSupply ⟨0, 3⟩ with subst := Substitution.empty.bindRow 2 (.openRecord [("x", .int)] 1) }
    let labels (w : RowVarId) : List Label := if w = 0 then ["a", "y"] else if w = 1 then ["a", "x"] else ["a"]
    let L : Labelling := ⟨Set.univ, fun w => {l | l ∈ labels w}⟩
    let e := Row.openRecord [("a", .record (.openRecord [("a", .int), ("y", .bool)] 0)), ("y", .bool)] 0
    let a := Row.openRecord [("a", .record (.openRecord [("a", .int)] 2))] 2
    ∃ L' : Labelling, L'.Extends L u.supply ∧ (u.unifyRows e a).2.subst.Labelled L' ∧ e.Labelled L' ∧ a.Labelled L' ∧
      ((u.unifyRows e a).2.subst.Acyclic → (u.unifyRows e a).2.subst.KeepsFields L') := by
  intro u labels L e a
  have hbound {id : RowVarId} {r : Row} (h : u.subst.lookupRow id = some r) :
      id = 2 ∧ r = .openRecord [("x", .int)] 1 := by
    simp only [u, Substitution.lookupRow_bindRow] at h
    split at h
    next hid => exact ⟨hid, (Option.some.inj h).symm⟩
    next => cases h
  have hbehind (before : List Label) {r : Row} (hkind : r.kind = .recordRow) (hown : ∀ l ∈ r.labels, l ∉ before)
      (hrest : ∀ w ∈ r.rest, labels w = before ++ r.labels) : r.Behind L {l | l ∈ before} := by
    refine ⟨fun w _ => by simp [L, hkind], fun _ => hown, fun _ w hw => ?_⟩
    ext l
    simp [L, hrest w hw]
  have hanew {r : Row} (h : ∀ r' ∈ r.rows, r'.kind = .recordRow ∧ ∀ w ∈ r'.rest, labels w = r'.labels) :
      r.Labelled L := by
    intro r' hr'
    simpa using hbehind [] (h r' hr').1 (fun _ _ => List.not_mem_nil) (h r' hr').2
  have hranked : u.subst.Ranked fun v => if v = .row 2 then 1 else 0 := by decide
  refine (unify_labelled (L := L) hranked.acyclic ?_ ?_ ?_).2 e a (by decide) (by decide) (hanew (by decide))
    (hanew (by decide))
  · rintro (id | id) ⟨r, hr⟩
    · cases hr
    · rw [(hbound hr).1]
      decide
  · refine ⟨nofun, fun id r hr => ?_⟩
    rw [(hbound hr).2]
    decide
  · refine ⟨nofun, fun id r hr => ?_, fun id r hr => ?_, fun id r hr f hf r' hr' => ?_⟩
    · simp [L, (hbound hr).2, Row.openRecord]
    · rw [(hbound hr).1, (hbound hr).2]
      exact hbehind ["a"] rfl (by decide) (by decide)
    · rw [(hbound hr).2] at hf
      rw [List.mem_singleton.mp hf] at hr'
      cases hr'

end Unifier

end RowTyping
