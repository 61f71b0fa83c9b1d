import RowTyping.Proofs.Unification.Labels
import RowTyping.Proofs.Unification.MostGeneral
import RowTyping.Proofs.Unification.Stability

namespace RowTyping

section Explicit

variable {A : Assignment}

theorem value_of_explicit_both : (∀ t : Ty, t.explicit.value A = t.value A) ∧ ∀ r : Row, r.explicit.value A = r.value A := by
  apply Ty.induct_rows
  case var => exact fun _ => rfl
  case con => exact fun _ => rfl
  case app =>
    intro f as hf has
    rw [Ty.explicit, Ty.value_app, Ty.value_app, Ty.value_app, List.map_map]
    exact congrArg₂ _ hf (List.map_congr_left has)
  case list => exact fun _ ha => congrArg Ty.list ha
  case tuple =>
    intro as has
    rw [Ty.explicit, Ty.value_tuple, Ty.value_tuple, Ty.value_tuple, List.map_map]
    exact congrArg _ (List.map_congr_left has)
  case fn =>
    intro ps e r hps he hr
    have heffects : (Effects.toRow e).explicit.value A = (Effects.toRow e).value A := by
      cases e with
      | none => rfl
      | some row => exact he row rfl
    rw [Ty.explicit, Ty.value_fn, Ty.value_fn, Ty.value_fn, List.map_map, ← heffects]
    exact congrArg₂ (Ty.fn · _ ·) (List.map_congr_left hps) hr
  case record => exact fun _ hr => congrArg Ty.record hr
  case row =>
    intro k fs rest hfs
    have hmap : OrderedMap.mapValues (Ty.value A) (OrderedMap.mapValues Ty.explicit fs) =
        OrderedMap.mapValues (Ty.value A) fs := by
      rw [OrderedMap.mapValues, OrderedMap.mapValues, List.map_map]
      exact List.map_congr_left fun f hf => congrArg (Prod.mk f.1) (hfs f hf)
    rw [Row.explicit_eq, Row.value_eq, Row.value_eq, hmap]

theorem apart_explicit_both :
    (∀ t : Ty, t.Apart A → t.explicit.Apart A) ∧ ∀ r : Row, r.AllApart A → r.explicit.AllApart A := by
  have inherited := inherited_rows (Row.Apart A) fun _ h => (List.not_mem_nil h).elim
  apply Ty.induct_rows
  case var => exact fun _ h => h
  case con => exact fun _ h => h
  case app =>
    intro f as hf has h r hr
    rw [Ty.explicit, Ty.value_app] at hr
    rcases Ty.mem_rows_app.mp hr with hr | ⟨_, hmem, hr⟩
    · exact hf (inherited.app h).1 r hr
    · obtain ⟨a, ha, rfl⟩ := List.mem_map.mp hmem
      exact has a ha ((inherited.app h).2 a ha) r hr
  case list => exact fun _ ha => ha
  case tuple =>
    intro as has h r hr
    rw [Ty.explicit, Ty.value_tuple] at hr
    obtain ⟨_, hmem, hr⟩ := Ty.mem_rows_tuple.mp hr
    obtain ⟨a, ha, rfl⟩ := List.mem_map.mp hmem
    exact has a ha (inherited.tuple h a ha) r hr
  case fn =>
    intro ps e t hps he ht h r hr
    rw [Ty.explicit, Ty.value_fn] at hr
    rcases Ty.mem_rows_fn.mp hr with ⟨_, hmem, hr⟩ | ⟨_, ⟨⟩, hr⟩ | hr
    · obtain ⟨p, hp, rfl⟩ := List.mem_map.mp hmem
      exact hps p hp ((inherited.fn h).1 p hp) r hr
    · cases e with
      | none => exact (List.mem_singleton.mp hr) ▸ fun _ h => (List.not_mem_nil h).elim
      | some row => exact he row rfl (inherited.fn h).2.1 r hr
    · exact ht (inherited.fn h).2.2 r hr
  case record => exact fun _ hr => hr
  case row =>
    intro k fs rest hfs h
    obtain ⟨hself, hfields⟩ := Row.allApart_iff.mp h
    rw [Row.explicit_eq, Row.allApart_iff]
    refine ⟨fun l hl => hself l (by simpa [Row.labels] using hl), fun f hf => ?_⟩
    obtain ⟨g, hg, rfl⟩ := List.mem_map.mp hf
    exact hfs g hg (hfields g hg)

end Explicit

namespace Assignment

def ofNames (f : TypeVar → TypeVar) (g : RowVarId → RowVarId) : Assignment where
  type v := .var (f v)
  row r := ⟨[], some (g r)⟩

def Exchanges (A B : Assignment) : Occurrence → Prop
  | .type v => ∃ w, A.type v = .var w ∧ B.type w = .var v
  | .tail r _ => ∃ w, A.row r = ⟨[], some w⟩ ∧ B.row w = ⟨[], some r⟩

def typeName (A : Assignment) (v : TypeVar) : TypeVar :=
  match A.type v with
  | .var w => w
  | _ => v

def rowName (A : Assignment) (r : RowVarId) : RowVarId :=
  (A.row r).rest.getD r

variable {A B : Assignment}

theorem Exchanges.agreeOn_ofNames {o : Occurrence} (h : A.Exchanges B o) :
    A.AgreeOn (ofNames A.typeName A.rowName) o := by
  cases o with
  | type v =>
      obtain ⟨w, hw, _⟩ := h
      simp [AgreeOn, ofNames, typeName, hw]
  | tail r k =>
      obtain ⟨w, hw, _⟩ := h
      simp [AgreeOn, ofNames, rowName, hw]

theorem exchanges_row (hA : A.Ordered) (hB : B.Ordered) {k : Kind} {fs : List (Label × Ty)} {rest : Option RowVarId}
    (hapart : (⟨k, fs, rest⟩ : Row).Apart A) (hapart' : ((⟨k, fs, rest⟩ : Row).value A).Apart B)
    (heq : ((⟨k, fs, rest⟩ : Row).value A).value B = (⟨k, fs, rest⟩ : Row).explicit) :
    ((⟨k, fs, rest⟩ : Row).value A).fields = OrderedMap.mapValues (Ty.value A) fs ∧
      (∀ f ∈ fs, (f.2.value A).value B = f.2.explicit) ∧ ∀ r, rest = some r → A.Exchanges B (.tail r k) := by
  have hlabels (l : Label) : l ∈ OrderedMap.keys (((⟨k, fs, rest⟩ : Row).value A).value B).fields → l ∈ OrderedMap.keys fs := by
    rw [heq, Row.explicit_eq, OrderedMap.keys_mapValues]
    exact id
  have hinner (l : Label) : l ∈ OrderedMap.keys ((⟨k, fs, rest⟩ : Row).value A).fields ↔
      l ∈ OrderedMap.keys fs ∨ l ∈ OrderedMap.keys (A.tail rest).fields := by
    rw [Row.value_eq, OrderedMap.mem_keys_merge (hA.tail _), OrderedMap.keys_mapValues]
  have houter (l : Label) : l ∈ OrderedMap.keys (((⟨k, fs, rest⟩ : Row).value A).value B).fields ↔
      l ∈ OrderedMap.keys ((⟨k, fs, rest⟩ : Row).value A).fields ∨ l ∈ OrderedMap.keys (B.tail (A.tail rest).rest).fields := by
    rw [Row.value_eq (r := (⟨k, fs, rest⟩ : Row).value A), OrderedMap.mem_keys_merge (hB.tail _), OrderedMap.keys_mapValues,
      Row.rest_value]
  have hempty : (A.tail rest).fields = [] := List.map_eq_nil_iff.mp (List.eq_nil_iff_forall_not_mem.mpr fun l hl =>
    hapart l (hlabels l ((houter l).mpr (.inl ((hinner l).mpr (.inr hl))))) hl)
  have hempty' : (B.tail (A.tail rest).rest).fields = [] := List.map_eq_nil_iff.mp
    (List.eq_nil_iff_forall_not_mem.mpr fun l hl => by
      apply hapart' l ((hinner l).mpr (.inl (hlabels l ((houter l).mpr (.inr hl)))))
      rwa [Row.rest_value])
  have hvalue : (⟨k, fs, rest⟩ : Row).value A = ⟨k, OrderedMap.mapValues (Ty.value A) fs, (A.tail rest).rest⟩ := by
    rw [Row.value_eq, hempty]
    rfl
  rw [hvalue, Row.value_eq, Row.explicit_eq, hempty'] at heq
  obtain ⟨_, hfields, hrest⟩ := Row.mk.inj heq
  refine ⟨by rw [hvalue], fun f hf => ?_, ?_⟩
  · have hmap : fs.map (fun f => (f.1, (f.2.value A).value B)) = fs.map fun f => (f.1, f.2.explicit) := by
      simpa [OrderedMap.mapValues, OrderedMap.merge] using hfields
    exact congrArg Prod.snd (List.map_inj_left.mp hmap f hf)
  · rintro r rfl
    cases hw : (A.row r).rest with
    | none =>
        rw [tail, hw] at hrest
        cases hrest
    | some w =>
        simp only [tail, hw] at hempty hempty' hrest
        exact ⟨w, by rw [← hempty, ← hw], by rw [← hempty', ← hrest]⟩

-- Names that lead there and back again are names of variables.
theorem exchanges_both (hA : A.Ordered) (hB : B.Ordered) :
    (∀ t : Ty, t.Apart A → (t.value A).Apart B → (t.value A).value B = t.explicit → ∀ o ∈ t.occurrences, A.Exchanges B o) ∧
      ∀ r : Row, r.AllApart A → (r.value A).AllApart B → (r.value A).value B = r.explicit →
        ∀ o ∈ r.occurrences, A.Exchanges B o := by
  have inherited := inherited_rows (Row.Apart A) fun _ h => (List.not_mem_nil h).elim
  have inherited' := inherited_rows (Row.Apart B) fun _ h => (List.not_mem_nil h).elim
  apply Ty.induct_rows
  case var =>
    intro v _ _ heq o ho
    obtain rfl := Ty.mem_occurrences_var.mp ho
    cases hw : A.type v with
    | var w =>
        rw [Ty.value_var, hw] at heq
        exact ⟨w, hw, heq⟩
    | fn => simp [Ty.explicit, hw, identity] at heq
    | _ => simp [Ty.explicit, hw, identity] at heq
  case con => exact fun _ _ _ _ o ho => by cases ho
  case app =>
    intro f as hf has h h' heq o ho
    rw [Ty.value_app] at h'
    simp only [Ty.explicit, Ty.value_app, List.map_map, Ty.app.injEq] at heq
    rcases Ty.mem_occurrences_app.mp ho with ho | ⟨a, ha, ho⟩
    · exact hf (inherited.app h).1 (inherited'.app h').1 heq.1 o ho
    · exact has a ha ((inherited.app h).2 a ha) ((inherited'.app h').2 _ (List.mem_map_of_mem ha))
        (List.map_inj_left.mp heq.2 a ha) o ho
  case list =>
    intro a ha h h' heq o ho
    exact ha h h' (Ty.list.inj heq) o ho
  case tuple =>
    intro as has h h' heq o ho
    rw [Ty.value_tuple] at h'
    simp only [Ty.explicit, Ty.value_tuple, List.map_map, Ty.tuple.injEq] at heq
    obtain ⟨a, ha, ho⟩ := Ty.mem_occurrences_tuple.mp ho
    exact has a ha (inherited.tuple h a ha) (inherited'.tuple h' _ (List.mem_map_of_mem ha)) (List.map_inj_left.mp heq a ha) o ho
  case fn =>
    intro ps e t hps he ht h h' heq o ho
    rw [Ty.value_fn] at h'
    simp only [Ty.explicit, Ty.value_fn, List.map_map, Ty.fn.injEq, Option.some.injEq] at heq
    rcases Ty.mem_occurrences_fn.mp ho with ⟨p, hp, ho⟩ | ⟨row, rfl, hrow⟩ | ho
    · exact hps p hp ((inherited.fn h).1 p hp) ((inherited'.fn h').1 _ (List.mem_map_of_mem hp))
        (List.map_inj_left.mp heq.1 p hp) o ho
    · exact he row rfl (inherited.fn h).2.1 (inherited'.fn h').2.1 heq.2.1 o hrow
    · exact ht (inherited.fn h).2.2 (inherited'.fn h').2.2 heq.2.2 o ho
  case record =>
    intro r hr h h' heq o ho
    exact hr h h' (Ty.record.inj heq) o ho
  case row =>
    intro k fs rest hfs h h' heq o ho
    obtain ⟨hself, hfields⟩ := Row.allApart_iff.mp h
    obtain ⟨hself', hfields'⟩ := Row.allApart_iff.mp h'
    obtain ⟨hvalue, hvalues, hrest⟩ := exchanges_row hA hB hself hself' heq
    rcases Row.mem_occurrences.mp ho with ⟨f, hf, ho⟩ | ⟨r, hr, rfl⟩
    · have hmem : (f.1, f.2.value A) ∈ ((⟨k, fs, rest⟩ : Row).value A).fields := by
        rw [hvalue]
        exact List.mem_map_of_mem (f := fun f : Label × Ty => (f.1, f.2.value A)) hf
      exact hfs f hf (hfields f hf) (hfields' _ hmem) (hvalues f hf) o ho
    · exact hrest r hr

end Assignment

def Row.SameUpToNames (r r' : Row) : Prop :=
  ∃ f g f' g', r' = r.value (.ofNames f g) ∧ r = r'.value (.ofNames f' g')

namespace Unifier

variable {κ : TypeVarId → Kind} {u : Unifier} {gs gs' : List Goal}

-- Each result is an instance of the other, and the two instantiations undo one another.
theorem renamed_applyRow (hu : u.Ready) {r : Row} (hr : r.Within u.supply) (hkind : r.Over (TypeVar.HasKind κ))
    (hgs : ∀ g ∈ gs, g.Within u.supply) (hgs' : ∀ g ∈ gs', g.Within u.supply) (h : u.Settles gs) (h' : u.Settles gs')
    (hapart : r.AllApart (u.through gs).subst.assignment) (hapart' : r.AllApart (u.through gs').subst.assignment)
    {A B : Assignment}
    (hA : ((u.through gs).subst.assignment.byKind κ).Continues (TypeVar.HasKind κ) u.supply A (u.through gs').subst)
    (hB : ((u.through gs').subst.assignment.byKind κ).Continues (TypeVar.HasKind κ) u.supply B (u.through gs).subst) :
    ((u.through gs').subst.applyRow r).explicit =
      ((u.through gs).subst.applyRow r).value (.ofNames B.typeName B.rowName) := by
  have hordered := ((through_moves hu hgs).ready hu).within.ordered
  have hordered' := ((through_moves hu hgs').ready hu).within.ordered
  have suits {s : Substitution} {A : Assignment} (hr' : r.AllApart s.assignment)
      (hagree : (s.assignment.byKind κ).Agree u.supply A) : r.Suits (TypeVar.HasKind κ) A :=
    hagree.suits_row hr.2 ⟨hr', hkind⟩
  have hforth : ((u.through gs).subst.applyRow r).explicit = ((u.through gs').subst.applyRow r).value A := by
    rw [← h.acyclic.value_assignment_row hordered hr.1, ← Assignment.value_byKind_row hkind, hA.agree.value_row hr.2,
      hA.satisfies.models.applyRow hA.regular.ordered hordered' hr.1]
  have hback : ((u.through gs').subst.applyRow r).explicit = ((u.through gs).subst.applyRow r).value B := by
    rw [← h'.acyclic.value_assignment_row hordered' hr.1, ← Assignment.value_byKind_row hkind, hB.agree.value_row hr.2,
      hB.satisfies.models.applyRow hB.regular.ordered hordered hr.1]
  have happlied := hB.satisfies.applyRow hB.regular.ordered hordered (suits hapart' hB.agree)
  have happlied' := hA.satisfies.applyRow hA.regular.ordered hordered' (suits hapart hA.agree)
  have hexchange := (Assignment.exchanges_both hB.regular.ordered hA.regular.ordered).2 _ happlied.1
    (by rw [← hback]; exact apart_explicit_both.2 _ happlied'.1)
    (by rw [← hback, value_of_explicit_both.2, hforth])
  rw [hback]
  exact Ty.value_congr_row fun o ho => (hexchange o ho).agreeOn_ofNames

theorem solvesAll_rows {e a : Row} : u.SolvesAll [.rows e a] ↔ (u.unifyRows e a).1 = .ok () :=
  and_iff_left trivial

theorem Solved.swap {A : Assignment} {C : TypeVar → Prop} {e a : Row} (h : ∀ g ∈ [Goal.rows e a], g.Solved C A) :
    ∀ g ∈ [Goal.rows a e], g.Solved C A := by
  obtain ⟨hholds, he, ha⟩ := List.forall_mem_singleton.mp h
  exact List.forall_mem_singleton.mpr ⟨Eq.symm hholds, ha, he⟩

theorem unifyRows_comm (hu : u.Ready) (hs : u.subst.Kinded κ) {e a : Row} (hg : (Goal.rows e a).Within u.supply)
    (hkinds : (Goal.rows e a).Kinded κ) :
    (u.Settles [.rows e a] ↔ u.Settles [.rows a e]) ∧
      (u.Settles [.rows e a] → ∃ r r' : Row, r.SameUpToNames r' ∧
        (((u.unifyRows e a).2.subst.applyRow e).explicit = r ∧ ((u.unifyRows e a).2.subst.applyRow a).explicit = r) ∧
        ((u.unifyRows a e).2.subst.applyRow e).explicit = r' ∧ ((u.unifyRows a e).2.subst.applyRow a).explicit = r') ∧
      ∀ φ : Layout, φ.Total → u.subst.Conforms φ Nowhere → (Goal.rows e a).ConformsAnew φ Nowhere →
        ((u.unifyRows e a).1 = .ok () ∧ (u.unifyRows e a).2.subst.Acyclic ↔
          (u.unifyRows a e).1 = .ok () ∧ (u.unifyRows a e).2.subst.Acyclic) := by
  have hgs := List.forall_mem_singleton.mpr hg
  have hgs' : ∀ g ∈ [Goal.rows a e], g.Within u.supply := List.forall_mem_singleton.mpr hg.symm
  have hks := List.forall_mem_singleton.mpr hkinds
  have hks' : ∀ g ∈ [Goal.rows a e], g.Kinded κ := List.forall_mem_singleton.mpr hkinds.symm
  have forth (h : u.Settles [.rows e a]) := h.of_solved hu hs hgs hgs' hks fun _ => Solved.swap
  have back (h : u.Settles [.rows a e]) := h.of_solved hu hs hgs' hgs hks' fun _ => Solved.swap
  have hiff : u.Settles [.rows e a] ↔ u.Settles [.rows a e] := ⟨fun h => (forth h).1, fun h => (back h).1⟩
  refine ⟨hiff, fun h => ?_, fun φ hφ hconf hgoal => ?_⟩
  · have h' := hiff.mp h
    obtain ⟨_, A, hA⟩ := forth h
    obtain ⟨_, B, hB⟩ := back h'
    have hapart := h.goals _ List.mem_cons_self
    have hapart' := h'.goals _ List.mem_cons_self
    have hnamed := renamed_applyRow hu hg.1 hkinds.1 hgs hgs' h h' hapart.1 hapart'.2 hA hB
    have hnamed' := renamed_applyRow hu hg.1 hkinds.1 hgs' hgs h' h hapart'.2 hapart.1 hB hA
    rw [← value_of_explicit_both.2] at hnamed hnamed'
    exact ⟨_, _, ⟨_, _, _, _, hnamed, hnamed'⟩, ⟨rfl, (run_agrees hu hg h.solved.1 h.acyclic).symm⟩, rfl,
      run_agrees hu (g := .rows a e) hg.symm h'.solved.1 h'.acyclic⟩
  · rw [← solvesAll_rows, ← solvesAll_rows]
    calc u.SolvesAll [.rows e a] ∧ (u.through [.rows e a]).subst.Acyclic
        ↔ u.Settles [.rows e a] := (settles_iff hu hgs hφ hconf (List.forall_mem_singleton.mpr hgoal)).symm
      _ ↔ u.Settles [.rows a e] := hiff
      _ ↔ u.SolvesAll [.rows a e] ∧ (u.through [.rows a e]).subst.Acyclic :=
        settles_iff hu hgs' hφ hconf (List.forall_mem_singleton.mpr hgoal.symm)

theorem unifyRows_comm_flat :
    let u := ofSupply ⟨1, 2⟩
    let e := Row.openRecord [("x", .int)] 0
    let a := Row.openRecord [("y", .list (.ofVar 0))] 1
    u.Settles [.rows a e] ∧ ((u.unifyRows e a).2.subst.applyRow e).explicit.SameUpToNames
      ((u.unifyRows a e).2.subst.applyRow e).explicit := by
  intro u e a
  have hu : u.Ready := ready_empty rfl
  have hg : (Goal.rows e a).Within u.supply := ⟨by decide, by decide⟩
  have hkinds : (Goal.rows e a).Kinded fun _ => .star := ⟨by decide, by decide⟩
  have hlabels : (Goal.rows e a).LabelledBy fun w => if w = 0 then ["x"] else ["y"] := by
    refine ⟨List.forall_mem_singleton.mpr ?_, List.forall_mem_singleton.mpr ?_⟩
    · rintro w ⟨⟩ l
      rfl
    · rintro w ⟨⟩ l
      rfl
  have hranked : (u.unifyRows e a).2.subst.Ranked fun v => if v = .row 2 ∨ v = .type 0 then 0 else 1 := by decide
  have hsettles : u.Settles [.rows e a] := by
    refine (settles_iff hu (List.forall_mem_singleton.mpr hg) (Layout.total_ofLabels _) (Substitution.conforms_empty _ _)
      (List.forall_mem_singleton.mpr hlabels.conforms)).mpr ⟨⟨by decide, trivial⟩, hranked.acyclic⟩
  obtain ⟨hiff, hsame, _⟩ := unifyRows_comm hu (.empty _) hg hkinds
  obtain ⟨r, r', hnames, ⟨rfl, _⟩, rfl, _⟩ := hsame hsettles
  exact ⟨hiff.mp hsettles, hnames⟩

theorem unifyRows_order_matters :
    let u := ofSupply ⟨0, 6⟩
    let e := Row.openRecord [("c", .record (.openRecord [] 1))] 1
    let a := Row.closedRecord [("c", .record (.openRecord [] 5)), ("x", .record (.openRecord [] 5))]
    (u.unifyRows e a).1 ≠ .ok () ∧ (u.unifyRows a e).1 = .ok () := by
  decide

end Unifier

end RowTyping
