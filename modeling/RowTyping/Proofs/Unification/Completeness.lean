import RowTyping.Proofs.Unification.Solution
import RowTyping.Proofs.Unification.Soundness
import RowTyping.Proofs.Unification.Termination

namespace RowTyping

namespace Row

variable {C : TypeVar → Prop} {A : Assignment} {e a : Row}

-- No label of either row comes from its tail as well, and what the rows do not share agrees.
structure Matched (A : Assignment) (e a : Row) : Prop where
  ascending : OrderedMap.Ascending e.fields
  ascending_other : OrderedMap.Ascending a.fields
  apart : e.Apart A
  apart_other : a.Apart A
  residual : (e.residual a).value A = (a.residual e).value A

theorem get?_of_mem_only (he : OrderedMap.Ascending e.fields) {f : Label × Ty} (hf : f ∈ e.only a) :
    e.get? f.1 = some f.2 ∧ a.get? f.1 = none := by
  obtain ⟨hmem, hhas⟩ := List.mem_filter.mp hf
  refine ⟨he.find?_of_mem hmem, ?_⟩
  rwa [has_eq, Bool.not_eq_true', Option.isSome_eq_false_iff, Option.isNone_iff_eq_none] at hhas

theorem commonGoals_hold_of_value (hA : A.Ordered) (he : OrderedMap.Ascending e.fields) (hea : e.Apart A)
    (haa : a.Apart A) (h : e.value A = a.value A) : ∀ g ∈ e.commonGoals a, g.Holds A := by
  refine (commonGoals_hold he).mpr fun l t t' ht ht' => ?_
  have hl := congrArg (Row.get? · l) h
  simp only [get?_value hA, hea.find?_tail ht, haa.find?_tail ht', ht, ht', Option.none_or, Option.map_some,
    Option.some.injEq] at hl
  exact hl

theorem matched_of_value (hA : A.Ordered) (he : OrderedMap.Ascending e.fields) (ha : OrderedMap.Ascending a.fields)
    (hea : e.Apart A) (haa : a.Apart A) (h : e.value A = a.value A) : Matched A e a := by
  refine ⟨he, ha, hea, haa, ?_⟩
  have hkind : e.kind = a.kind := by
    have := congrArg Row.kind h
    rwa [value_kind, value_kind] at this
  have hrest : (A.tail e.rest).rest = (A.tail a.rest).rest := by
    have := congrArg Row.rest h
    rwa [rest_value, rest_value] at this
  refine value_ext hkind (ascending_only he) (ascending_only ha) hrest fun l => ?_
  have hl := congrArg (Row.get? · l) h
  simp only [get?_value hA] at hl
  rw [get?_value hA, get?_value hA, get?_residual he, get?_residual ha]
  cases het : e.get? l with
  | none => cases hat : a.get? l <;> simpa [het, hat, Row.residual] using hl
  | some t =>
      cases hat : a.get? l with
      | none => simpa [het, hat, Row.residual] using hl
      | some t' => simp [Row.residual, hea.find?_tail het, haa.find?_tail hat]

namespace Matched

theorem symm (h : Matched A e a) : Matched A a e :=
  ⟨h.ascending_other, h.ascending, h.apart_other, h.apart, h.residual.symm⟩

theorem tail_rest (h : Matched A e a) : (A.tail e.rest).rest = (A.tail a.rest).rest := by
  have := congrArg Row.rest h.residual
  rwa [rest_value, rest_value] at this

-- A label that only one row has comes from the tail of the other.
theorem find?_tail (h : Matched A e a) (hA : A.Ordered) (l : Label) :
    OrderedMap.find? (A.tail a.rest).fields l =
      if (a.get? l).isSome then none
      else if (e.get? l).isSome then (e.get? l).map (Ty.value A) else OrderedMap.find? (A.tail e.rest).fields l := by
  have hl := congrArg (Row.get? · l) h.residual
  simp only [get?_value hA, get?_residual h.ascending, get?_residual h.ascending_other] at hl
  cases hat : a.get? l with
  | some t => simpa using h.apart_other.find?_tail hat
  | none =>
      cases het : e.get? l with
      | none => simpa [het, hat, Row.residual] using hl.symm
      | some t => simpa [het, hat, Row.residual, h.apart.find?_tail het] using hl.symm

theorem find?_tail_of_mem_only (h : Matched A e a) (hA : A.Ordered) {f : Label × Ty} (hf : f ∈ e.only a) :
    OrderedMap.find? (A.tail a.rest).fields f.1 = some (f.2.value A) := by
  obtain ⟨he, ha⟩ := get?_of_mem_only h.ascending hf
  simp [h.find?_tail hA, he, ha]

theorem only_eq_nil (h : Matched A e a) (hA : A.Ordered) (hrest : e.rest = a.rest ∨ a.rest = none) :
    e.only a = [] := by
  refine List.eq_nil_iff_forall_not_mem.mpr fun f hf => ?_
  have hfind := h.find?_tail_of_mem_only hA hf
  rcases hrest with hrest | hrest
  · rw [← hrest, h.apart.find?_tail (get?_of_mem_only h.ascending hf).1] at hfind
    cases hfind
  · rw [hrest] at hfind
    cases hfind

-- The tail holds what only the other row has and, past that, whatever neither row has.
theorem tail_eq (h : Matched A e a) (hA : A.Ordered) (k : Kind) (rest : Option RowVarId)
    (hrest : (A.tail rest).rest = (A.tail e.rest).rest)
    (hfields : ∀ l, OrderedMap.find? (A.tail rest).fields l =
      if (a.get? l).isSome then none else OrderedMap.find? (A.tail e.rest).fields l) :
    A.tail e.rest = ((⟨k, a.only e, rest⟩ : Row).value A).tail := by
  have hasc : OrderedMap.Ascending (OrderedMap.mapValues (Ty.value A) (a.only e)) :=
    (ascending_only h.ascending_other).mapValues _
  have hmerge : (A.tail e.rest).fields =
      OrderedMap.merge (OrderedMap.mapValues (Ty.value A) (a.only e)) (A.tail rest).fields := by
    refine OrderedMap.Ascending.ext (hA.tail _) (hasc.merge _) fun l => ?_
    have hal : OrderedMap.find? (a.only e) l = if (e.get? l).isSome then none else a.get? l :=
      get?_residual h.ascending_other
    rw [OrderedMap.find?_merge _ (hA.tail _), OrderedMap.find?_mapValues, hal, hfields l]
    cases hat : a.get? l with
    | none => simp
    | some t =>
        rw [h.symm.find?_tail hA l, hat]
        cases e.get? l <;> simp
  rw [tail_value, hrest, ← hmerge]

end Matched

theorem Suits.only {r other : Row} (h : r.Suits C A) (k : Kind) {rest : Option RowVarId}
    (hrest : ∀ f ∈ r.only other, OrderedMap.find? (A.tail rest).fields f.1 = none) :
    Row.Suits C A ⟨k, r.only other, rest⟩ := by
  obtain ⟨hapart, hstarred⟩ := h
  constructor
  · refine allApart_iff.mpr ⟨fun l hl => ?_, fun f hf => (allApart_iff.mp hapart).2 f (List.mem_of_mem_filter hf)⟩
    obtain ⟨f, hf, rfl⟩ := List.mem_map.mp hl
    exact OrderedMap.find?_eq_none_iff.mp (hrest f hf)
  · obtain ⟨k', fs, rest'⟩ := r
    intro v hv
    rcases mem_occurrences.mp hv with ⟨f, hf, hv⟩ | ⟨_, _, h⟩
    · exact hstarred v (mem_occurrences.mpr (.inl ⟨f, List.mem_of_mem_filter hf, hv⟩))
    · cases h

end Row

namespace Assignment

variable {C : TypeVar → Prop} {A A' : Assignment}

def withRow (A : Assignment) (r : RowVarId) (T : Tail) : Assignment :=
  { A with row := fun id => if id = r then T else A.row id }

theorem withRow_self (r : RowVarId) (T : Tail) : (A.withRow r T).row r = T :=
  if_pos rfl

theorem agree_withRow (sup : Supply) (T : Tail) : A.Agree sup (A.withRow sup.nextRow T) :=
  ⟨rfl, fun _ hr => (if_neg (Nat.ne_of_lt hr)).symm⟩

theorem Regular.withRow (hA : A.Regular C) (r : RowVarId) {T : Tail} (hT : OrderedMap.Ascending T.fields) :
    (A.withRow r T).Regular C where
  ordered id := by
    by_cases hid : id = r
    · rw [hid, withRow_self]
      exact hT
    · rw [show (A.withRow r T).row id = A.row id from if_neg hid]
      exact hA.ordered id
  uniform := hA.uniform
  kinds := hA.kinds
  star := hA.star

def without (A : Assignment) (rest : Option RowVarId) (a : Row) : Tail :=
  ⟨(A.tail rest).fields.filter fun f => !a.has f.1, (A.tail rest).rest⟩

theorem find?_without (hA : A.Ordered) (rest : Option RowVarId) (a : Row) (l : Label) :
    OrderedMap.find? (A.without rest a).fields l =
      if (a.get? l).isSome then none else OrderedMap.find? (A.tail rest).fields l := by
  have := OrderedMap.find?_filter (hA.tail rest) (fun l => !a.has l) l
  rw [without, this, Row.has_eq]
  cases (a.get? l).isSome <;> rfl

theorem Regular.without (hA : A.Regular C) (r : RowVarId) (rest : Option RowVarId) (a : Row) :
    (A.withRow r (A.without rest a)).Regular C :=
  hA.withRow r ((hA.ordered.tail rest).filter _)

theorem ground_without (hA : ∀ r, (A.row r).Ground) (r : RowVarId) (rest : Option RowVarId) (a : Row) :
    ∀ id, ((A.withRow r (A.without rest a)).row id).Ground := by
  have htail : (A.tail rest).Ground := by
    cases rest with
    | none => exact ⟨rfl, fun f hf => (List.not_mem_nil hf).elim⟩
    | some r => exact hA r
  intro id
  by_cases hid : id = r
  · rw [hid, withRow_self]
    exact ⟨htail.1, fun f hf => htail.2 f (List.mem_of_mem_filter hf)⟩
  · rw [show (A.withRow r (A.without rest a)).row id = A.row id from if_neg hid]
    exact hA id

theorem Continues.refl {sup : Supply} {s : Substitution} (hA : A.Regular C) (hs : A.Satisfies C s) :
    A.Continues C sup A s :=
  ⟨hA, .refl sup A, hs, fun h => h⟩

theorem Continues.trans {sup sup₁ : Supply} {s s₁ : Substitution} {A₁ : Assignment} (h : A.Continues C sup A₁ s₁)
    (h' : A₁.Continues C sup₁ A' s) (hcovers : ∀ v, sup.Covers v → sup₁.Covers v) : A.Continues C sup A' s :=
  ⟨h'.regular, h.agree.trans h'.agree hcovers, h'.satisfies, fun hA => h'.ground (h.ground hA)⟩

end Assignment

namespace Row.Matched

variable {A A' : Assignment} {e a : Row}

theorem find?_without (h : Matched A e a) (hA : A.Ordered) (l : Label) :
    OrderedMap.find? (A.without e.rest a).fields l =
      if (e.get? l).isSome then none else OrderedMap.find? (A.tail a.rest).fields l := by
  rw [Assignment.find?_without hA, h.find?_tail hA]
  cases het : e.get? l with
  | some t => simp [h.apart.find?_tail het]
  | none => cases a.get? l <;> simp

theorem agree (h : Matched A e a) {sup : Supply} (hagree : A.Agree sup A') (hg : (Goal.rows e a).Within sup) :
    Matched A' e a where
  ascending := h.ascending
  ascending_other := h.ascending_other
  apart := hagree.apart hg.1.2 h.apart
  apart_other := hagree.apart hg.2.2 h.apart_other
  residual := by
    have he : (e.residual a).value A = (e.residual a).value A' :=
      hagree.value_row ((hereditary_within sup).residual _ hg.1).2
    have ha : (a.residual e).value A = (a.residual e).value A' :=
      hagree.value_row ((hereditary_within sup).residual _ hg.2).2
    rw [← he, ← ha, h.residual]

end Row.Matched

namespace Unifier

variable {C : TypeVar → Prop} {A : Assignment} {u u' : Unifier} {verdict : Verdict}

theorem BindsType.complete {v : TypeVar} {t : Ty} (h : BindsType u v t verdict u') (hA : A.Regular C)
    (hs : A.Satisfies C u.subst) (hv : C v) (ht : t.Ordered) (hfits : t.Suits C A) (heq : A.type v = t.value A) :
    verdict ≠ .refused ∧ A.Satisfies C u'.subst := by
  cases h with
  | same => exact ⟨nofun, hs⟩
  | bound => exact ⟨nofun, hs.bindType hA.uniform hfits heq⟩
  | refused _ _ _ hcheck =>
      rcases hcheck with ⟨hoccurs, hvar⟩ | hkind
      · have hlt := ((Assignment.measure_both hA.ordered hA.uniform).1 t hfits.1 ht _ hoccurs).2 hvar
        rw [← heq, hA.uniform v] at hlt
        exact absurd hlt (Nat.lt_irrefl _)
      · exact absurd (hA.kind_eq hv hfits.2 heq) hkind

theorem BindsTail.complete {r : RowVarId} {row : Row} (h : BindsTail u r row verdict u') (hA : A.Regular C)
    (hs : A.Satisfies C u.subst) (hne : row.rest ≠ some r) (hrow : row.Ordered) (hfits : row.Suits C A)
    (heq : A.row r = (row.value A).tail) : verdict ≠ .refused ∧ A.Satisfies C u'.subst := by
  cases h with
  | same hrest => exact absurd hrest hne
  | bound => exact ⟨nofun, hs.bindRow hfits heq⟩
  | refused _ hoccurs =>
      have hbound := (Assignment.measure_both hA.ordered hA.uniform).2 row hfits.1 hrow
      have hfields : (row.value A).fields = (A.row r).fields := congrArg Tail.fields heq.symm
      obtain ⟨k, fs, rest⟩ := row
      rcases Row.mem_vars.mp hoccurs with ⟨f, hf, hmem⟩ | ⟨w, hw, heq⟩
      · have hlt := hbound.1 f hf _ hmem
        rw [hfields] at hlt
        exact absurd hlt (Nat.lt_irrefl _)
      · obtain rfl := Var.row.inj heq
        exact absurd hw hne

theorem shared_complete {e a : Row} (hu : u.Ready) (hg : (Goal.rows e a).Within u.supply) (hA : A.Regular C)
    (hs : A.Satisfies C u.subst) (he : e.Suits C A) (ha : a.Suits C A) (hmatched : Row.Matched A e a) :
    ∃ A', A.Continues C u.supply A' u.subst ∧
      (Row.Suits C A' ⟨e.kind, a.only e, some u.supply.nextRow⟩ ∧
        A'.tail e.rest = ((⟨e.kind, a.only e, some u.supply.nextRow⟩ : Row).value A').tail) ∧
      Row.Suits C A' ⟨a.kind, e.only a, some u.supply.nextRow⟩ ∧
        A'.tail a.rest = ((⟨a.kind, e.only a, some u.supply.nextRow⟩ : Row).value A').tail := by
  let A' := A.withRow u.supply.nextRow (A.without e.rest a)
  have hA' : A'.Regular C := hA.without u.supply.nextRow e.rest a
  have hagree : A.Agree u.supply A' := Assignment.agree_withRow u.supply _
  have hmatched' : Row.Matched A' e a := hmatched.agree hagree hg
  have htail : A'.tail (some u.supply.nextRow) = A.without e.rest a := Assignment.withRow_self _ _
  have hleft := hagree.tail fun w hw => covers_rest hg.1 hw
  have hright := hagree.tail fun w hw => covers_rest hg.2 hw
  have hfields : ∀ l, OrderedMap.find? (A'.tail (some u.supply.nextRow)).fields l =
      if (a.get? l).isSome then none else OrderedMap.find? (A'.tail e.rest).fields l := by
    intro l
    rw [htail, ← hleft]
    exact Assignment.find?_without hA.ordered _ _ l
  have hfields' : ∀ l, OrderedMap.find? (A'.tail (some u.supply.nextRow)).fields l =
      if (e.get? l).isSome then none else OrderedMap.find? (A'.tail a.rest).fields l := by
    intro l
    rw [htail, ← hright]
    exact hmatched.find?_without hA.ordered l
  have hs' : A'.Satisfies C u.subst := hs.agree hagree hu.within hu.covers
  have hground := fun h => Assignment.ground_without (A := A) h u.supply.nextRow e.rest a
  refine ⟨A', ⟨hA', hagree, hs', hground⟩, ⟨?_, ?_⟩, ?_, ?_⟩
  · refine (hagree.suits_row hg.2.2 ha).only _ fun f hf => ?_
    rw [hfields, (Row.get?_of_mem_only hmatched.ascending_other hf).1]
    rfl
  · refine hmatched'.tail_eq hA'.ordered _ _ ?_ hfields
    rw [htail, ← hleft]
    rfl
  · refine (hagree.suits_row hg.1.2 he).only _ fun f hf => ?_
    rw [hfields', (Row.get?_of_mem_only hmatched.ascending hf).1]
    rfl
  · refine hmatched'.symm.tail_eq hA'.ordered _ _ ?_ hfields'
    rw [htail, ← hright, ← hmatched.tail_rest]
    rfl

theorem SettlesTails.complete {e a : Row} (h : SettlesTails u e a verdict u') (hu : u.Ready)
    (hg : (Goal.rows e a).Within u.supply) (hA : A.Regular C) (hs : A.Satisfies C u.subst) (he : e.Suits C A) (ha : a.Suits C A)
    (hmatched : Row.Matched A e a) : verdict ≠ .refused ∧ ∃ A', A.Continues C u.supply A' u'.subst := by
  have keep (hbind : verdict ≠ .refused ∧ A.Satisfies C u'.subst) :
      verdict ≠ .refused ∧ ∃ A', A.Continues C u.supply A' u'.subst := ⟨hbind.1, A, .refl hA hbind.2⟩
  cases h with
  | agree => exact ⟨nofun, A, .refl hA hs⟩
  | labels _ _ hbad =>
      exfalso
      rcases hbad with ⟨hrest, hne⟩ | ⟨hrest, hne⟩ | ⟨hrest, hne⟩
      · exact hne ⟨hmatched.only_eq_nil hA.ordered (.inl hrest), hmatched.symm.only_eq_nil hA.ordered (.inl hrest.symm)⟩
      · exact hne (hmatched.only_eq_nil hA.ordered (.inr hrest))
      · exact hne (hmatched.symm.only_eq_nil hA.ordered (.inr hrest))
  | expected r _ _ hr hr' _ hbind =>
      have htail := hmatched.tail_eq hA.ordered e.kind none
        (by rw [hmatched.tail_rest, hr']) (fun l => by
          rw [hmatched.symm.find?_tail hA.ordered l, hr']
          cases a.get? l <;> simp [Assignment.tail, OrderedMap.find?_nil])
      rw [hr] at htail
      exact keep (hbind.complete hA hs (Option.some_ne_none r).symm (hg.2.1.only _ _) (ha.only _ fun _ _ => rfl) htail)
  | actual r _ _ hr hr' _ hbind =>
      have htail := hmatched.symm.tail_eq hA.ordered a.kind none
        (by rw [← hmatched.tail_rest, hr]) (fun l => by
          rw [hmatched.find?_tail hA.ordered l, hr]
          cases e.get? l <;> simp [Assignment.tail, OrderedMap.find?_nil])
      rw [hr'] at htail
      exact keep (hbind.complete hA hs (Option.some_ne_none r).symm (hg.1.1.only _ _) (he.only _ fun _ _ => rfl) htail)
  | join r r' _ _ hr hr' hne hex hax hbind =>
      have htail := hmatched.tail_eq hA.ordered e.kind a.rest hmatched.tail_rest.symm (fun l => by
        rw [hmatched.find?_tail hA.ordered l]
        cases hat : a.get? l with
        | some t => simp
        | none =>
            cases het : e.get? l with
            | none => simp
            | some t =>
                have honly : OrderedMap.find? (e.only a) l = if (a.get? l).isSome then none else e.get? l :=
                  Row.get?_residual hmatched.ascending
                rw [hex, hat, het] at honly
                cases honly)
      rw [hr, hr', hax] at htail
      rw [← hax] at hbind htail
      refine keep (hbind.complete hA hs (fun heq => hne (Option.some.inj heq).symm) (hg.2.1.only _ _)
        (ha.only _ fun f hf => ?_) htail)
      rw [hax] at hf
      cases hf
  | shareRefused r r' _ _ hr hr' hne _ hbind hstop =>
      obtain ⟨A', ⟨hA', hagree, hs', hground⟩, hfirst, _⟩ := shared_complete hu hg hA hs he ha hmatched
      have hfresh : r ≠ u.supply.nextRow := Nat.ne_of_lt (covers_rest hg.1 hr)
      have htail := hfirst.2
      rw [hr] at htail
      have hbound := hbind.complete hA' hs' (fun heq => hfresh (Option.some.inj heq).symm) (hg.2.1.only _ _) hfirst.1 htail
      exact ⟨hbound.1, A', hA', hagree, hbound.2, hground⟩
  | share r r' _ u₁ _ hr hr' hne _ hbind hbind' =>
      obtain ⟨A', ⟨hA', hagree, hs', hground⟩, hfirst, hsecond⟩ := shared_complete hu hg hA hs he ha hmatched
      have hfresh : r ≠ u.supply.nextRow := Nat.ne_of_lt (covers_rest hg.1 hr)
      have hfresh' : r' ≠ u.supply.nextRow := Nat.ne_of_lt (covers_rest hg.2 hr')
      have htail := hfirst.2
      have htail' := hsecond.2
      rw [hr] at htail
      rw [hr'] at htail'
      have hbound := hbind.complete hA' hs' (fun heq => hfresh (Option.some.inj heq).symm) (hg.2.1.only _ _) hfirst.1 htail
      have hbound' := hbind'.complete hA' hbound.2 (fun heq => hfresh' (Option.some.inj heq).symm) (hg.1.1.only _ _)
        hsecond.1 htail'
      exact ⟨hbound'.1, A', hA', hagree, hbound'.2, hground⟩

section Applied

variable (hu : u.Ready) (hA : A.Regular C) (hs : A.Satisfies C u.subst)

include hu hA hs

theorem applyGoal_solved {g : Goal} (hg : g.Within u.supply) (hsolved : g.Solved C A) : (u.applyGoal g).Solved C A := by
  refine ⟨(hu.holds_applyGoal hA.ordered hs.models hg).mpr hsolved.1, ?_⟩
  cases g with
  | types => exact ⟨hs.apply hA.ordered hu.within.ordered hsolved.2.1, hs.apply hA.ordered hu.within.ordered hsolved.2.2⟩
  | rows =>
      exact ⟨hs.applyRow hA.ordered hu.within.ordered hsolved.2.1, hs.applyRow hA.ordered hu.within.ordered hsolved.2.2⟩

theorem parts_solved {e a : Ty} {part : Part} {gs : List Goal} (hg : (Goal.types e a).Within u.supply)
    (hsolved : (Goal.types e a).Solved C A) (hmeet : (u.subst.apply e).meet (u.subst.apply a) = .parts part gs) :
    ∀ g ∈ gs, g.Solved C A := by
  intro g hmem
  have happlied := applyGoal_solved hu hA hs hg hsolved
  have hparts := Ty.parts_of_meet hmeet
  exact ⟨hparts.holds.mpr happlied.1 g hmem, hparts.both (hereditary_suits C A).toInherited happlied.2.1 happlied.2.2 g hmem⟩

theorem rows_solved {e a : Ty} {r r' : Row} (hg : (Goal.types e a).Within u.supply)
    (hsolved : (Goal.types e a).Solved C A) (hmeet : (u.subst.apply e).meet (u.subst.apply a) = .rows r r') :
    (Goal.rows r r').Solved C A := by
  obtain ⟨hholds, he, ha⟩ := applyGoal_solved hu hA hs hg hsolved
  obtain ⟨hx, hy⟩ := Ty.rows_of_meet hmeet
  rw [hx] at he
  rw [hy] at ha
  refine ⟨?_, (hereditary_suits C A).record he, (hereditary_suits C A).record ha⟩
  simp only [applyGoal, hx, hy, Goal.holds_types, Ty.value_record, Ty.record.injEq] at hholds
  exact hholds

theorem matched_applied {e a : Row} (hg : (Goal.rows e a).Within u.supply) (hsolved : (Goal.rows e a).Solved C A) :
    (∀ g ∈ (u.subst.applyRow e).commonGoals (u.subst.applyRow a), g.Solved C A) ∧
      Row.Matched A (u.subst.applyRow e) (u.subst.applyRow a) := by
  obtain ⟨hholds, he, ha⟩ := applyGoal_solved hu hA hs hg hsolved
  obtain ⟨hwe, hwa⟩ := hu.applyGoal_within hg
  have hea := (Row.allApart_iff.mp he.1).1
  have haa := (Row.allApart_iff.mp ha.1).1
  have hcommon := Row.commonGoals_hold_of_value hA.ordered hwe.ascending hea haa hholds
  exact ⟨fun g hmem => ⟨hcommon g hmem, Row.commonGoals_both (hereditary_suits C A).toInherited he ha g hmem⟩,
    Row.matched_of_value hA.ordered hwe.ascending hwa.ascending hea haa hholds⟩

end Applied

theorem Solves.complete {n : Nat} {gs : List Goal} (h : Solves n u gs verdict u') (hu : u.Ready)
    (hgs : ∀ g ∈ gs, g.Within u.supply) (hA : A.Regular C) (hs : A.Satisfies C u.subst) (hsolved : ∀ g ∈ gs, g.Solved C A) :
    verdict ≠ .refused ∧ ∃ A', A.Continues C u.supply A' u'.subst := by
  induction h generalizing A with
  | nil => exact ⟨nofun, A, .refl hA hs⟩
  | cons hhead _ ihhead ihrest =>
      rw [List.forall_mem_cons] at hgs hsolved
      have hfirst := List.forall_mem_singleton.mpr hgs.1
      have first := hhead.moves hu hfirst
      obtain ⟨_, A₁, hnext⟩ := ihhead hu hfirst hA hs (List.forall_mem_singleton.mpr hsolved.1)
      have hrest := ihrest (first.ready hu) (fun g hg => (hgs.2 g hg).mono fun v => first.covers) hnext.regular
        hnext.satisfies fun g hg => hnext.agree.solved (hgs.2 g hg) (hsolved.2 g hg)
      obtain ⟨hverdict, A', hlast⟩ := hrest
      exact ⟨hverdict, A', hnext.trans hlast fun v => first.covers⟩
  | stop _ _ ih =>
      rw [List.forall_mem_cons] at hgs hsolved
      exact ih hu (List.forall_mem_singleton.mpr hgs.1) hA hs (List.forall_mem_singleton.mpr hsolved.1)
  | exhausted => exact ⟨nofun, A, .refl hA hs⟩
  | identical => exact ⟨nofun, A, .refl hA hs⟩
  | bind _ hmeet hbind =>
      have hg := List.forall_mem_singleton.mp hgs
      obtain ⟨he, ha⟩ := hu.applyGoal_within hg
      obtain ⟨hholds, hfe, hfa⟩ := applyGoal_solved hu hA hs hg (List.forall_mem_singleton.mp hsolved)
      have variable_over {v : TypeVar} {t : Ty} (hx : t = .var v) (ht : t.Suits C A) : C v :=
        ht.2 v (hx ▸ Ty.mem_occurrences_var.mpr rfl)
      rcases Ty.bind_of_meet hmeet with ⟨hx, rfl⟩ | ⟨hx, rfl⟩
      · simp only [applyGoal, Goal.holds_types, hx, Ty.value_var] at hholds
        have hbound := hbind.complete hA hs (variable_over hx hfe) ha.1 hfa hholds
        exact ⟨hbound.1, A, .refl hA hbound.2⟩
      · simp only [applyGoal, Goal.holds_types, hx, Ty.value_var] at hholds
        have hbound := hbind.complete hA hs (variable_over hx hfa) he.1 hfe hholds.symm
        exact ⟨hbound.1, A, .refl hA hbound.2⟩
  | parts _ hmeet _ ih =>
      have hg := List.forall_mem_singleton.mp hgs
      exact ih (hu.record _ _ _) (hu.parts_within hg hmeet) hA hs
        (parts_solved hu hA hs hg (List.forall_mem_singleton.mp hsolved) hmeet)
  | rows _ hmeet _ ih =>
      have hg := List.forall_mem_singleton.mp hgs
      exact ih hu (List.forall_mem_singleton.mpr (hu.rows_within hg hmeet)) hA hs
        (List.forall_mem_singleton.mpr (rows_solved hu hA hs hg (List.forall_mem_singleton.mp hsolved) hmeet))
  | clash hne hmeet =>
      have hg := List.forall_mem_singleton.mp hgs
      have happlied := applyGoal_solved hu hA hs hg (List.forall_mem_singleton.mp hsolved)
      exact absurd happlied.1 (Ty.ne_of_meet_clash hmeet hne A)
  | kinds hkind =>
      have hkinds := congrArg Row.kind (List.forall_mem_singleton.mp hsolved).1
      rw [Row.value_kind, Row.value_kind] at hkinds
      exact absurd hkinds hkind
  | equal => exact ⟨nofun, A, .refl hA hs⟩
  | fields _ _ _ _ ih =>
      have hg := List.forall_mem_singleton.mp hgs
      exact ih (hu.record _ _ _) (hu.commonGoals_within hg) hA hs
        (matched_applied hu hA hs hg (List.forall_mem_singleton.mp hsolved)).1
  | restart _ _ hfields _ _ ihfields ih =>
      have hg := List.forall_mem_singleton.mp hgs
      have happlied := applyGoal_solved hu hA hs hg (List.forall_mem_singleton.mp hsolved)
      obtain ⟨hcommon, hmatched⟩ := matched_applied hu hA hs hg (List.forall_mem_singleton.mp hsolved)
      have moves := hfields.moves (hu.record _ _ _) (hu.commonGoals_within hg)
      obtain ⟨_, A₁, hnext⟩ := ihfields (hu.record _ _ _) (hu.commonGoals_within hg) hA hs hcommon
      have hwithin := hu.residual_within hg
      have hresidual : (Goal.rows _ _).Solved C A := ⟨hmatched.residual,
        (hereditary_suits C A).residual _ happlied.2.1, (hereditary_suits C A).residual _ happlied.2.2⟩
      have hrest := ih (moves.ready (hu.record _ _ _))
        (List.forall_mem_singleton.mpr (hwithin.mono fun v => moves.covers)) hnext.regular hnext.satisfies
        (List.forall_mem_singleton.mpr (hnext.agree.solved hwithin hresidual))
      obtain ⟨hverdict, A', hlast⟩ := hrest
      exact ⟨hverdict, A', hnext.trans hlast fun v => moves.covers⟩
  | tails _ _ hfields _ htails ih =>
      have hg := List.forall_mem_singleton.mp hgs
      have happlied := applyGoal_solved hu hA hs hg (List.forall_mem_singleton.mp hsolved)
      obtain ⟨hcommon, hmatched⟩ := matched_applied hu hA hs hg (List.forall_mem_singleton.mp hsolved)
      have moves := hfields.moves (hu.record _ _ _) (hu.commonGoals_within hg)
      obtain ⟨_, A₁, hnext⟩ := ih (hu.record _ _ _) (hu.commonGoals_within hg) hA hs hcommon
      have hwithin := hu.applyGoal_within hg
      have hsettled := htails.complete (moves.ready (hu.record _ _ _)) (hwithin.mono fun v => moves.covers)
        hnext.regular hnext.satisfies (hnext.agree.suits_row hwithin.1.2 happlied.2.1)
        (hnext.agree.suits_row hwithin.2.2 happlied.2.2) (hmatched.agree hnext.agree hwithin)
      obtain ⟨hverdict, A', hlast⟩ := hsettled
      exact ⟨hverdict, A', hnext.trans hlast fun v => moves.covers⟩

theorem run_continues (hu : u.Ready) {g : Goal} (hg : g.Within u.supply) (hA : A.Regular C) (hs : A.Satisfies C u.subst)
    (hsolved : g.Solved C A) : (run g u).1 = .ok () ∧ (run g u).2.subst.Acyclic ∧
      ∃ A', A.Continues C u.supply A' (run g u).2.subst := by
  have hrun := solves_run g u
  have hgs := List.forall_mem_singleton.mpr hg
  obtain ⟨hrefused, A', hlast⟩ := hrun.complete hu hgs hA hs (List.forall_mem_singleton.mpr hsolved)
  have hready := (hrun.moves hu hgs).ready hu
  have hacyclic := hlast.satisfies.acyclic hlast.regular hready.within.ordered hready.chainless
  have hexhausted := run_not_exhausted hu hg hacyclic
  refine ⟨Verdict.ofAnswer_eq_solved.mp ?_, hacyclic, A', hlast⟩
  cases hverdict : Verdict.ofAnswer (run g u).1 with
  | solved => rfl
  | refused => exact absurd hverdict hrefused
  | exhausted => exact absurd hverdict hexhausted

theorem run_complete (hu : u.Ready) {g : Goal} (hg : g.Within u.supply) (hA : A.Proper) (hs : A.Fulfils u.subst)
    (hsolved : g.Solved TypeVar.Starred A) : (run g u).1 = .ok () ∧ (run g u).2.subst.Acyclic ∧
      ∃ A' : Assignment, A'.Proper ∧ A.Agree u.supply A' ∧ A'.Fulfils (run g u).2.subst := by
  obtain ⟨hok, hacyclic, A', hlast⟩ := run_continues hu hg hA.regular hs hsolved
  exact ⟨hok, hacyclic, A', ⟨hlast.regular.ordered, hlast.regular.uniform, hlast.ground hA.ground⟩, hlast.agree,
    hlast.satisfies⟩

end Unifier

end RowTyping
