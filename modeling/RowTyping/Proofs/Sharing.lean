import RowTyping.Proofs.FreeVariables
import RowTyping.Proofs.Instantiation

namespace RowTyping

namespace Scheme

variable {scheme : Scheme} {s : Supply}

/-- What every instance has in common, by the scheme's own account. -/
def Free (scheme : Scheme) : Var → Prop
  | .type v => v ∈ scheme.freeTypeVars
  | .row r => r ∈ scheme.freeRowVars

/-- A row variable that the predicates have to themselves. -/
def Overlooked (scheme : Scheme) : Var → Prop
  | .type _ => False
  | .row r => r ∉ scheme.rowVars ∧ .row r ∉ scheme.ty.vars ∧ ∃ p ∈ scheme.predicates, .row r ∈ p.ty.vars

theorem free_type_iff {v : TypeVarId} : scheme.Free (.type v) ↔ .type v ∈ scheme.vars ∧ .type v ∉ scheme.quantified := by
  rw [Free, freeTypeVars, OrderedSet.mem_diff, OrderedSet.mem_ofList, type_mem_quantified, vars]
  simp [Ty.mem_typeVars_iff]

theorem free_row_iff {r : RowVarId} : scheme.Free (.row r) ↔ .row r ∈ scheme.ty.vars ∧ .row r ∉ scheme.quantified := by
  rw [Free, freeRowVars, OrderedSet.mem_diff, row_mem_quantified, Ty.mem_rowVars_iff]

theorem mem_vars_of_ty {v : Var} (h : v ∈ scheme.ty.vars) : v ∈ scheme.vars :=
  List.mem_append_left _ h

theorem mem_vars_of_predicate {p : Predicate} (hp : p ∈ scheme.predicates) {v : Var} (h : v ∈ p.ty.vars) : v ∈ scheme.vars :=
  List.mem_append_right _ (List.mem_flatMap.mpr ⟨p, hp, h⟩)

theorem free_of_ty {v : Var} (h : v ∈ scheme.ty.vars) (hq : v ∉ scheme.quantified) : scheme.Free v := by
  cases v with
  | type v => exact free_type_iff.mpr ⟨mem_vars_of_ty h, hq⟩
  | row r => exact free_row_iff.mpr ⟨h, hq⟩

theorem free_of_predicate {p : Predicate} (hp : p ∈ scheme.predicates) {v : Var} (h : v ∈ p.ty.vars) (hq : v ∉ scheme.quantified) :
    scheme.Free v ∨ scheme.Overlooked v := by
  cases v with
  | type v => exact .inl (free_type_iff.mpr ⟨mem_vars_of_predicate hp h, hq⟩)
  | row r =>
      by_cases hty : .row r ∈ scheme.ty.vars
      · exact .inl (free_of_ty hty hq)
      · exact .inr ⟨fun hr => hq (row_mem_quantified.mpr hr), hty, p, hp, h⟩

section Replacement

variable (h : ∀ v ∈ scheme.quantified, s.Covers v)

include h

theorem flat_replacement_of_covers : (scheme.replacement s).Flat :=
  flat_replacement fun v hv hq => hv.1 (h v hq)

theorem mem_vars_replacement {t : Ty} {v : Var} (hv : v ∈ ((scheme.replacement s).apply t).vars) :
    s.Drawn (scheme.supplyAfter s) v ∨ v ∈ t.vars ∧ v ∉ scheme.quantified := by
  by_cases hq : v ∈ scheme.quantified
  · exact absurd (binds_replacement.mpr hq) ((flat_replacement_of_covers h).acyclic.free_of_apply hv)
  · obtain ⟨w, hw, hpath⟩ := Substitution.depends_of_apply hv
    rcases Relation.ReflTransGen.cases_tail hpath with rfl | ⟨u, -, huv⟩
    · exact .inr ⟨hw, hq⟩
    · exact .inl (drawn_of_depends huv)

theorem mem_vars_replacement_of_kept {t : Ty} {v : Var} (hv : v ∈ t.vars) (hq : v ∉ scheme.quantified) :
    v ∈ ((scheme.replacement s).apply t).vars := by
  rw [(flat_replacement_of_covers h).apply_eq]
  refine (Ty.mem_vars_subst_of_kept ?_).1 t (fun q _ x hx => ?_) hv
  · have hfree : ¬ (scheme.replacement s).Binds v := mt binds_replacement.mp hq
    cases v with
    | type id => simp [Ty.image, Substitution.not_binds_type.mp hfree]
    | row id => simp [Ty.image, Substitution.not_binds_row.mp hfree]
  · obtain ⟨i, -, rfl⟩ := lookupRow_replacement hx
    rfl

end Replacement

end Scheme

namespace InferM

theorem instantiate_shares (scheme : Scheme) (node : NodeId) {c : Context}
    (h : ∀ v ∈ scheme.vars ++ scheme.quantified, c.unifier.supply.Covers v) :
    let out := (instantiate scheme node).run c
    let new := c.unifier.supply.Drawn out.2.unifier.supply
    (∀ v ∈ out.1.vars, new v ∨ scheme.Free v) ∧
      ∃ ks, out.2.classes = c.classes.append ks ∧
        (∀ k ∈ ks, ∀ v ∈ k.ty.vars, new v ∨ scheme.Free v ∨ scheme.Overlooked v) ∧
        (scheme.isMono = false → ∀ v, scheme.Overlooked v → (∃ k ∈ ks, v ∈ k.ty.vars) ∧ ¬ new v ∧ ¬ scheme.Free v) := by
  intro out new
  obtain ⟨hty, hunifier, hclasses⟩ := ensures_instantiate scheme node c
  have hquantified : ∀ v ∈ scheme.quantified, c.unifier.supply.Covers v := fun v hv => h v (List.mem_append_right _ hv)
  have hnew {v : Var} : new v ↔ c.unifier.supply.Drawn (scheme.supplyAfter c.unifier.supply) v := by
    change c.unifier.supply.Drawn ((instantiate scheme node).run c).2.unifier.supply v ↔ _
    rw [hunifier]
  refine ⟨fun v hv => ?_, _, hclasses, fun k hk v hv => ?_, fun hpoly v hv => ?_⟩
  · rw [hty] at hv
    exact (Scheme.mem_vars_replacement hquantified hv).imp hnew.mpr fun h => Scheme.free_of_ty h.1 h.2
  · rw [Scheme.demands] at hk
    split at hk
    · cases hk
    · obtain ⟨p, hp, rfl⟩ := List.mem_map.mp hk
      exact (Scheme.mem_vars_replacement hquantified hv).imp hnew.mpr fun h => Scheme.free_of_predicate hp h.1 h.2
  · cases v with
    | type => exact hv.elim
    | row r =>
        obtain ⟨hr, hty, p, hp, hmem⟩ := hv
        have hq : .row r ∉ scheme.quantified := fun hq => hr (Scheme.row_mem_quantified.mp hq)
        refine ⟨⟨p.constraint c.path node (scheme.replacement c.unifier.supply).apply, ?_, ?_⟩, fun hdrawn => ?_, fun hfree => ?_⟩
        · rw [Scheme.demands, if_neg (by simp [hpoly])]
          exact List.mem_map_of_mem hp
        · exact Scheme.mem_vars_replacement_of_kept hquantified hmem hq
        · exact hdrawn.1 (h _ (List.mem_append_left _ (Scheme.mem_vars_of_predicate hp hmem)))
        · exact hty (Scheme.free_row_iff.mp hfree).1

theorem instantiate_shares_tails :
    let scheme : Scheme := ⟨[.star 0], [1], [⟨"Eq", .record (.openRecord [("a", .ofVar 0)] 1)⟩,
      ⟨"Show", .fn [.record (.openRecord [] 2)] (Effects.opened ["IO"] 3) (.ofVar 4)⟩],
      .fn [.record (.openRecord [("a", .ofVar 0)] 1)] none (.record (.openRecord [] 2))⟩
    let c := Context.ofSupply ⟨10, 10⟩
    let out := (instantiate scheme 0).run c
    let new := c.unifier.supply.Drawn out.2.unifier.supply
    (∀ v ∈ scheme.vars ++ scheme.quantified, c.unifier.supply.Covers v) ∧
      (∀ v ∈ out.1.vars, new v ∨ scheme.Free v) ∧
      out.1 = .fn [.record (.openRecord [("a", .ofVar 10)] 10)] none (.record (.openRecord [] 2)) ∧
      ∃ ks, out.2.classes = c.classes.append ks ∧ (∃ k ∈ ks, .row 3 ∈ k.ty.vars) ∧ ¬ new (.row 3) ∧ ¬ scheme.Free (.row 3) := by
  intro scheme c out new
  have hcovers : ∀ v ∈ scheme.vars ++ scheme.quantified, c.unifier.supply.Covers v := by decide
  obtain ⟨hvars, ks, hclasses, -, hoverlooked⟩ := instantiate_shares scheme 0 hcovers
  have htail : scheme.Overlooked (.row 3) := by
    refine ⟨by decide, by decide, ⟨"Show", _⟩, List.mem_cons_of_mem _ (List.mem_singleton_self _), by decide⟩
  exact ⟨hcovers, hvars, by decide, ks, hclasses, hoverlooked rfl _ htail⟩

theorem instantiate_shares_uncounted_tail :
    let pair (id : NodeId) : Expr := .tuple id [.var (id - 2) "x", .var (id - 1) "f"]
    let compare : Expr := .lambda 8 ["f"] (.binary 7 .eq (pair 3) (pair 6))
    let shout : Expr := .lambda 12 ["y"] (.binary 11 .concat (.var 9 "y") (.lit 10 (.string "t")))
    let inferred := (inferBinding ⟨.prelude, .default, []⟩ .empty (.lambda 14 ["x"] (.app 13 compare [shout])) .nested).run
      (.ofSupply ⟨100, 100⟩)
    let scheme := inferred.1.1
    let c := inferred.2
    let out := (instantiate scheme 15).run c
    (∀ v ∈ scheme.vars ++ scheme.quantified, c.unifier.supply.Covers v) ∧
      ∃ k ∈ out.2.classes.toList, k.node = 15 ∧ ∃ r ∈ k.ty.rowVars,
        ¬ c.unifier.supply.Drawn out.2.unifier.supply (.row r) ∧ r ∉ scheme.freeRowVars := by
  decide +kernel

end InferM

end RowTyping
