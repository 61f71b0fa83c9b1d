import RowTyping.Proofs.Unification.Completeness

namespace RowTyping

section Explicit

def Assignment.explicit (A : Assignment) : Assignment where
  type v := (A.type v).explicit
  row r := ⟨OrderedMap.mapValues Ty.explicit (A.row r).fields, (A.row r).rest⟩

variable {A : Assignment}

theorem Assignment.explicit_tail (rest : Option RowVarId) :
    A.explicit.tail rest = ⟨OrderedMap.mapValues Ty.explicit (A.tail rest).fields, (A.tail rest).rest⟩ := by
  cases rest <;> rfl

theorem value_explicit_both :
    (∀ t : Ty, (t.value A).explicit = t.value A.explicit) ∧ ∀ r : Row, (r.value A).explicit = r.value A.explicit := by
  apply Ty.induct_rows
  case var => exact fun _ => rfl
  case con => exact fun _ => rfl
  case app =>
    intro f as hf has
    rw [Ty.value_app, Ty.value_app, ← hf, ← List.map_congr_left has, Ty.explicit, Ty.value_app, List.map_map]
    rfl
  case list =>
    intro a ha
    rw [Ty.value_list, Ty.value_list, ← ha]
    exact Ty.value_list _
  case tuple =>
    intro as has
    rw [Ty.value_tuple, Ty.value_tuple, ← List.map_congr_left has, Ty.explicit, Ty.value_tuple, List.map_map]
    rfl
  case fn =>
    intro ps e r hps he hr
    have heffects : ((Effects.toRow e).value A).explicit = (Effects.toRow e).value A.explicit := by
      cases e with
      | none => rfl
      | some row => exact he row rfl
    rw [Ty.value_fn, Ty.value_fn, ← hr, ← heffects, ← List.map_congr_left hps, Ty.explicit, Ty.value_fn, List.map_map]
    rfl
  case record =>
    intro r hr
    rw [Ty.value_record, Ty.value_record, ← hr]
    exact Ty.value_record _
  case row =>
    intro k fs rest hfs
    have hmap : OrderedMap.mapValues Ty.explicit (OrderedMap.mapValues (Ty.value A) fs) =
        OrderedMap.mapValues (Ty.value A.explicit) fs := by
      rw [OrderedMap.mapValues, OrderedMap.mapValues, List.map_map]
      exact List.map_congr_left fun f hf => congrArg (Prod.mk f.1) (hfs f hf)
    rw [Row.explicit_eq, Row.value_eq, Row.value_eq, Assignment.explicit_tail, OrderedMap.mapValues_merge, hmap]

theorem Ty.value_explicit (t : Ty) : (t.value A).explicit = t.value A.explicit :=
  value_explicit_both.1 t

theorem Row.value_explicit (r : Row) : (r.value A).explicit = r.value A.explicit :=
  value_explicit_both.2 r

@[simp]
theorem Ty.explicit_explicit (t : Ty) : t.explicit.explicit = t.explicit :=
  value_explicit t

@[simp]
theorem Row.explicit_explicit (r : Row) : r.explicit.explicit = r.explicit :=
  value_explicit r

theorem Ty.isGround_explicit (t : Ty) : t.explicit.isGround = t.isGround := by
  rw [Bool.eq_iff_iff, isGround_iff, isGround_iff]
  exact forall_congr' fun v => not_congr (mem_vars_explicit_both.1 t)

theorem Ty.kind_of_isGround {t : Ty} (h : t.isGround = true) : t.kind = .star := by
  cases t with
  | var v => exact absurd (mem_vars_var.mpr rfl) (isGround_iff.mp h (.type v.id))
  | _ => rfl

end Explicit

namespace Assignment

variable {A θ : Assignment} {vars : List Var}

@[simp]
theorem explicit_explicit (A : Assignment) : A.explicit.explicit = A.explicit := by
  have hrow (r : RowVarId) : A.explicit.explicit.row r = A.explicit.row r := by
    simp only [explicit, OrderedMap.mapValues, List.map_map, Function.comp_def, Ty.explicit_explicit]
  have htype (v : TypeVar) : A.explicit.explicit.type v = A.explicit.type v := Ty.explicit_explicit _
  calc A.explicit.explicit = ⟨A.explicit.explicit.type, A.explicit.explicit.row⟩ := rfl
    _ = A.explicit := by rw [funext htype, funext hrow]

def Grounds (θ : Assignment) : Occurrence → Prop
  | .type v => (θ.type v).isGround = true ∧ (θ.type v).kind = v.kind
  | .tail r _ => OrderedMap.Ascending (θ.row r).fields ∧ (θ.row r).Ground

instance (θ : Assignment) : (o : Occurrence) → Decidable (θ.Grounds o)
  | .type v => inferInstanceAs (Decidable ((θ.type v).isGround = true ∧ (θ.type v).kind = v.kind))
  | .tail r _ => inferInstanceAs (Decidable (OrderedMap.Ascending (θ.row r).fields ∧ (θ.row r).Ground))

theorem Grounds.star {v : TypeVar} (h : θ.Grounds (.type v)) : v.kind = .star :=
  h.2.symm.trans (Ty.kind_of_isGround h.1)

-- Total, and the same whatever kind a variable is written with.
def restrict (θ : Assignment) (vars : List Var) : Assignment where
  type v := (θ.type (.star v.id)).explicit
  row r := if .row r ∈ vars then θ.explicit.row r else ⟨[], none⟩

theorem restrict_type {v : TypeVar} (hv : v.kind = .star) : (θ.restrict vars).type v = (θ.type v).explicit := by
  obtain ⟨id, k⟩ := v
  cases hv
  rfl

theorem restrict_row {r : RowVarId} (hr : Var.row r ∈ vars) : (θ.restrict vars).row r = θ.explicit.row r :=
  if_pos hr

theorem restrict_tail {rest : Option RowVarId} (h : ∀ r, rest = some r → Var.row r ∈ vars) :
    (θ.restrict vars).tail rest = θ.explicit.tail rest := by
  cases rest with
  | none => rfl
  | some r => exact restrict_row (h r rfl)

theorem restrict_agreeOn {o : Occurrence} (hstar : ∀ v, o = .type v → v.kind = .star) (ho : o.var ∈ vars) :
    (θ.restrict vars).AgreeOn θ.explicit o := by
  cases o with
  | type v => exact restrict_type (hstar v rfl)
  | tail r k => exact restrict_row ho

theorem restrict_proper (h : ∀ r, Var.row r ∈ vars → OrderedMap.Ascending (θ.row r).fields ∧ (θ.row r).Ground) :
    (θ.restrict vars).Proper where
  ordered r := by
    by_cases hr : Var.row r ∈ vars
    · rw [restrict_row hr]
      exact (h r hr).1.mapValues _
    · rw [show (θ.restrict vars).row r = ⟨[], none⟩ from if_neg hr]
      exact List.Pairwise.nil
  uniform _ := rfl
  ground r := by
    by_cases hr : Var.row r ∈ vars
    · rw [restrict_row hr]
      refine ⟨(h r hr).2.1, List.forall_mem_map.mpr fun f hf => ?_⟩
      rw [Ty.isGround_explicit]
      exact (h r hr).2.2 f hf
    · rw [show (θ.restrict vars).row r = ⟨[], none⟩ from if_neg hr]
      exact ⟨rfl, fun f hf => (List.not_mem_nil hf).elim⟩

theorem apart_restrict {r : Row} (hvars : ∀ v ∈ r.vars, v ∈ vars) (h : r.Apart θ) : r.Apart (θ.restrict vars) := by
  obtain ⟨k, fs, rest⟩ := r
  intro l hl
  rw [restrict_tail fun r hr => hvars _ (Row.mem_vars.mpr (.inr ⟨r, hr, rfl⟩)), explicit_tail, OrderedMap.keys_mapValues]
  exact h l hl

def extend (θ : Assignment) (vars : List Var) (A : Assignment) : Assignment where
  type := θ.type
  row r := if .row r ∈ vars then θ.row r else A.row r

theorem extend_agreeOn {sup : Supply} (hagree : (θ.restrict vars).Agree sup A) (hvars : ∀ v ∈ vars, sup.Covers v)
    {o : Occurrence} (hstar : ∀ v, o = .type v → v.kind = .star) : (θ.extend vars A).explicit.AgreeOn A.explicit o := by
  cases o with
  | type v =>
      have htype : A.type v = (θ.type v).explicit := by rw [← hagree.type, restrict_type (hstar v rfl)]
      change (θ.type v).explicit = (A.type v).explicit
      rw [htype, Ty.explicit_explicit]
  | tail r k =>
      by_cases hr : Var.row r ∈ vars
      · have hrow : A.row r = θ.explicit.row r := by rw [← hagree.row r (hvars _ hr), restrict_row hr]
        have hθ : (θ.extend vars A).explicit.row r = θ.explicit.row r := by
          simp only [explicit, extend, if_pos hr]
        have hA : A.explicit.row r = θ.explicit.explicit.row r := by
          simp only [explicit] at hrow ⊢
          rw [hrow]
        exact (hθ.trans (by rw [explicit_explicit])).trans hA.symm
      · simp only [AgreeOn, explicit, extend, if_neg hr]

def Restores (θ' : Assignment) (s : Substitution) (θ : Assignment) : Occurrence → Prop
  | .type v => ((s.apply (.var v)).value θ').explicit = (θ.type v).explicit
  | .tail r k =>
      ((s.applyRow ⟨k, [], some r⟩).value θ').explicit = Row.explicit ⟨k, (θ.row r).fields, (θ.row r).rest⟩

section Restoring

variable {s : Substitution} {sup : Supply} (hA : A.Proper) (hagree : (θ.restrict vars).Agree sup A)
  (hvars : ∀ v ∈ vars, sup.Covers v) (hs : A.Fulfils s) (hordered : s.Ordered)

include hagree hvars

theorem explicit_value_extend {t : Ty} (ht : t.Starred) : (t.value (θ.extend vars A)).explicit = (t.value A).explicit := by
  rw [Ty.value_explicit, Ty.value_explicit]
  exact Ty.value_congr fun o ho => extend_agreeOn hagree hvars fun v hv => ht v (hv ▸ ho)

theorem explicit_value_extend_row {r : Row} (hr : r.Starred) :
    (r.value (θ.extend vars A)).explicit = (r.value A).explicit := by
  rw [Row.value_explicit, Row.value_explicit]
  exact Ty.value_congr_row fun o ho => extend_agreeOn hagree hvars fun v hv => hr v (hv ▸ ho)

include hA hs hordered

theorem restores_type {v : TypeVar} (hv : v.kind = .star) : (θ.extend vars A).Restores s θ (.type v) := by
  have hfits : (Ty.var v).Fits A :=
    ⟨fun r hr => absurd hr Ty.mem_rows_var, fun w hw => by cases Ty.mem_occurrences_var.mp hw; exact hv⟩
  have hvalue : (s.apply (.var v)).value A = (θ.type v).explicit := by
    rw [hs.models.apply hA.ordered hordered fun r hr => absurd hr Ty.mem_rows_var, Ty.value_var, ← hagree.type,
      restrict_type hv]
  rw [Restores, explicit_value_extend hagree hvars (hs.apply hA.ordered hordered hfits).2, hvalue, Ty.explicit_explicit]

theorem restores_row {r : RowVarId} {k : Kind} (hr : Var.row r ∈ vars) : (θ.extend vars A).Restores s θ (.tail r k) := by
  have hfields {P : Label × Ty → Prop} : ∀ f ∈ (⟨k, [], some r⟩ : Row).fields, P f := fun f hf => (List.not_mem_nil hf).elim
  have hfits : (⟨k, [], some r⟩ : Row).Fits A := by
    refine ⟨Row.allApart_iff.mpr ⟨fun l hl => (List.not_mem_nil hl).elim, hfields⟩, fun w hw => ?_⟩
    rcases Row.mem_occurrences.mp hw with ⟨f, hf, _⟩ | ⟨_, _, h⟩
    · cases hf
    · cases h
  have hrow : A.row r = θ.explicit.row r := by rw [← hagree.row r (hvars _ hr), restrict_row hr]
  have hvalue : (s.applyRow ⟨k, [], some r⟩).value A = Row.explicit ⟨k, (θ.row r).fields, (θ.row r).rest⟩ := by
    have hbare : (⟨k, [], some r⟩ : Row).Ordered := Row.ordered_iff.mpr ⟨List.Pairwise.nil, hfields⟩
    rw [hs.models.applyRow hA.ordered hordered hbare, Row.value_eq, Row.explicit_eq]
    change (⟨k, OrderedMap.merge [] (A.row r).fields, (A.row r).rest⟩ : Row) = _
    rw [OrderedMap.nil_merge (hA.ordered r), hrow]
    rfl
  rw [Restores, explicit_value_extend_row hagree hvars (hs.applyRow hA.ordered hordered hfits).2, hvalue,
    Row.explicit_explicit]

end Restoring

end Assignment

namespace Unifier

variable {u : Unifier} {θ : Assignment}

theorem ready_empty (hempty : u.subst = .empty) : u.Ready := by
  refine ⟨?_, ?_, ?_⟩
  · rw [hempty]
    exact Substitution.acyclic_empty.chainless
  · rw [hempty]
    exact fun v hv => absurd hv (Substitution.not_binds_empty v)
  · rw [hempty]
    exact Substitution.within_empty _

theorem fulfils_empty (A : Assignment) : A.Fulfils .empty :=
  ⟨⟨nofun, nofun⟩, nofun, nofun⟩

theorem unify_complete (hempty : u.subst = .empty) {e a : Ty} (he : e.Within u.supply) (ha : a.Within u.supply)
    (hground : ∀ o ∈ e.occurrences ++ a.occurrences, θ.Grounds o) (heq : (e.value θ).explicit = (a.value θ).explicit)
    (hapart : e.Apart θ ∧ a.Apart θ) :
    (u.unify e a).1 = .ok () ∧ (u.unify e a).2.subst.Acyclic ∧
      ∃ θ' : Assignment, (∀ o ∈ e.occurrences ++ a.occurrences, θ'.AgreeOn θ o) ∧
        (∀ r, OrderedMap.Ascending (θ'.row r).fields ∧ (θ'.row r).Ground) ∧
        ∀ o ∈ e.occurrences ++ a.occurrences, θ'.Restores (u.unify e a).2.subst θ o := by
  let vars := (e.occurrences ++ a.occurrences).map Occurrence.var
  have hvars {o : Occurrence} (ho : o ∈ e.occurrences ++ a.occurrences) : o.var ∈ vars := List.mem_map_of_mem ho
  have hstar {v : TypeVar} (ho : .type v ∈ e.occurrences ++ a.occurrences) : v.kind = .star := (hground _ ho).star
  have hrows : ∀ r, Var.row r ∈ vars → OrderedMap.Ascending (θ.row r).fields ∧ (θ.row r).Ground := by
    intro r hr
    obtain ⟨o, ho, hor⟩ := List.mem_map.mp hr
    cases o with
    | type => cases hor
    | tail w k =>
        cases hor
        exact hground _ ho
  have hcovers : ∀ v ∈ vars, u.supply.Covers v := by
    intro v hv
    obtain ⟨o, ho, rfl⟩ := List.mem_map.mp hv
    rcases List.mem_append.mp ho with ho | ho
    · exact he.2 _ (Ty.mem_vars_iff.mpr ⟨o, ho, rfl⟩)
    · exact ha.2 _ (Ty.mem_vars_iff.mpr ⟨o, ho, rfl⟩)
  have solves {t : Ty} (ht : ∀ o ∈ t.occurrences, o ∈ e.occurrences ++ a.occurrences) (hapart : t.Apart θ) :
      t.value (θ.restrict vars) = (t.value θ).explicit ∧ t.Fits (θ.restrict vars) := by
    refine ⟨?_, fun r hr => Assignment.apart_restrict (fun v hv => ?_) (hapart r hr), fun v hv => hstar (ht _ hv)⟩
    · rw [Ty.value_explicit]
      exact Ty.value_congr fun o ho => Assignment.restrict_agreeOn (fun v hv => hstar (ht _ (hv ▸ ho))) (hvars (ht o ho))
    · obtain ⟨o, ho, rfl⟩ := Ty.mem_vars_iff.mp (Row.vars_of_mem_rows.1 t hr v hv)
      exact hvars (ht o ho)
  obtain ⟨hvalue, hfits⟩ := solves (fun o ho => List.mem_append_left _ ho) hapart.1
  obtain ⟨hvalue', hfits'⟩ := solves (fun o ho => List.mem_append_right _ ho) hapart.2
  have hu := ready_empty hempty
  have hrun := run_complete hu (g := .types e a) ⟨he, ha⟩ (Assignment.restrict_proper hrows)
    (hempty ▸ fulfils_empty _) ⟨by rw [Goal.holds_types, hvalue, hvalue', heq], hfits, hfits'⟩
  obtain ⟨hok, hacyclic, A, hA, hagree, hs⟩ := hrun
  refine ⟨hok, hacyclic, θ.extend vars A, ?_, ?_, ?_⟩
  · intro o ho
    cases o with
    | type => rfl
    | tail r k => exact if_pos (hvars ho)
  · intro r
    by_cases hr : Var.row r ∈ vars
    · rw [show (θ.extend vars A).row r = θ.row r from if_pos hr]
      exact hrows r hr
    · rw [show (θ.extend vars A).row r = A.row r from if_neg hr]
      exact ⟨hA.ordered r, hA.ground r⟩
  · have hordered := (((solves_run (.types e a) u).moves hu (List.forall_mem_singleton.mpr ⟨he, ha⟩)).ready hu).within.ordered
    intro o ho
    cases o with
    | type v => exact Assignment.restores_type hA hagree hcovers hs hordered (hstar ho)
    | tail r k => exact Assignment.restores_row hA hagree hcovers hs hordered (hvars ho)

theorem unify_complete_fn :
    let u := ofSupply ⟨1, 3⟩
    let e := Ty.fn [.ofVar 0] none (.record (.openRecord [("x", .int)] 0))
    let a := Ty.fn [.int] (some (.openEffects [] 1)) (.record (.openRecord [("y", .ofVar 0)] 2))
    let θ : Assignment :=
      ⟨fun _ => .int, fun r => if r = 0 then ⟨[("y", .int)], none⟩ else if r = 2 then ⟨[("x", .int)], none⟩ else ⟨[], none⟩⟩
    (u.unify e a).1 = .ok () ∧ ∃ θ' : Assignment, ∀ o ∈ e.occurrences ++ a.occurrences,
      θ'.Restores (u.unify e a).2.subst θ o := by
  intro u e a θ
  have hground : ∀ o ∈ e.occurrences ++ a.occurrences, θ.Grounds o := by decide
  have hapart : e.Apart θ ∧ a.Apart θ := by decide
  have h := unify_complete (u := u) rfl (by decide) (by decide) hground (by decide) hapart
  obtain ⟨hok, _, θ', _, _, hrestores⟩ := h
  exact ⟨hok, θ', hrestores⟩

end Unifier

end RowTyping
