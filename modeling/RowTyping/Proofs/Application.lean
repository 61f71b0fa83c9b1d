import RowTyping.Proofs.Absorption

namespace RowTyping

open Relation

section Free

def Ty.Free (t : Ty) : Var → Prop
  | .type id => id ∈ t.typeVars
  | .row id => id ∈ t.rowVars

def Row.Free (r : Row) : Var → Prop
  | .type id => id ∈ r.typeVars
  | .row id => id ∈ r.rowVars

def Effects.Free (e : Effects) (v : Var) : Prop :=
  ∃ r ∈ e, Row.Free r v

theorem Ty.free_iff {t : Ty} {v : Var} : t.Free v ↔ v ∈ t.vars := by
  cases v with
  | type id => exact mem_typeVars_iff
  | row id => exact mem_rowVars_iff

theorem Row.free_iff {r : Row} {v : Var} : r.Free v ↔ v ∈ r.vars := by
  cases v with
  | type id => exact mem_typeVars_iff
  | row id => exact mem_rowVars_iff

end Free

namespace Substitution

section Elimination

variable {α : Type} {free : α → Var → Prop} {f : α → α} {s : Substitution}

structure Eliminates (s : Substitution) (free : α → Var → Prop) (f : α → α) : Prop where
  unbound : ∀ a v, free (f a) v → ¬ s.Binds v
  reached : ∀ a w, free (f a) w → ∃ v, free a v ∧ ReflTransGen s.Depends v w
  idempotent : ∀ a, f (f a) = f a
  ground : ∀ a, (∀ v, ¬ free a v) → f a = a

theorem eliminates_of_fixed (hunbound : ∀ a v, free (f a) v → ¬ s.Binds v)
    (hreached : ∀ a w, free (f a) w → ∃ v, free a v ∧ ReflTransGen s.Depends v w)
    (hfixed : ∀ a, (∀ v, free a v → ¬ s.Binds v) → f a = a) : s.Eliminates free f where
  unbound := hunbound
  reached := hreached
  idempotent a := hfixed (f a) (hunbound a)
  ground a h := hfixed a fun v hv => absurd hv (h v)

theorem Acyclic.eliminates_types (h : s.Acyclic) : s.Eliminates Ty.Free s.apply := by
  refine eliminates_of_fixed (fun t v hv => h.free_of_apply (Ty.free_iff.mp hv)) (fun t w hw => ?_) fun t ht => ?_
  · obtain ⟨v, hv, hpath⟩ := depends_of_apply (Ty.free_iff.mp hw)
    exact ⟨v, Ty.free_iff.mpr hv, hpath⟩
  · exact apply_of_free fun v hv => ht v (Ty.free_iff.mpr hv)

theorem Acyclic.eliminates_rows (h : s.Acyclic) : s.Eliminates Row.Free s.applyRow := by
  refine eliminates_of_fixed (fun r v hv => h.free_of_applyRow (Row.free_iff.mp hv)) (fun r w hw => ?_) fun r hr => ?_
  · obtain ⟨v, hv, hpath⟩ := depends_of_applyRow (Row.free_iff.mp hw)
    exact ⟨v, Row.free_iff.mpr hv, hpath⟩
  · exact applyRow_of_free fun v hv => hr v (Row.free_iff.mpr hv)

theorem Eliminates.effects (h : s.Eliminates Row.Free s.applyRow) : s.Eliminates Effects.Free s.applyEffects where
  unbound e v := by
    rintro ⟨_, hr', hv⟩
    obtain ⟨r, -, rfl⟩ := Option.map_eq_some_iff.mp hr'
    exact h.unbound r v hv
  reached e w := by
    rintro ⟨_, hr', hw⟩
    obtain ⟨r, hr, rfl⟩ := Option.map_eq_some_iff.mp hr'
    obtain ⟨v, hv, hpath⟩ := h.reached r w hw
    exact ⟨v, ⟨r, hr, hv⟩, hpath⟩
  idempotent e := by
    cases e with
    | none => rfl
    | some r => exact congrArg some (h.idempotent r)
  ground e he := by
    cases e with
    | none => rfl
    | some r => exact congrArg some (h.ground r fun v hv => he v ⟨r, rfl, hv⟩)

theorem Acyclic.eliminates (h : s.Acyclic) :
    s.Eliminates Ty.Free s.apply ∧ s.Eliminates Row.Free s.applyRow ∧ s.Eliminates Effects.Free s.applyEffects ∧
      ∀ t : Ty, t.isGround = true → s.apply t = t :=
  ⟨h.eliminates_types, h.eliminates_rows, h.eliminates_rows.effects,
    fun t ht => h.eliminates_types.ground t fun v hv => Ty.isGround_iff.mp ht v (Ty.free_iff.mp hv)⟩

theorem eliminates_winding :
    let s : Substitution :=
      ⟨[(0, .list (.ofVar 1)), (1, .record (.openRecord [("a", .ofVar 2)] 0))], [(0, .openRecord [("a", .int), ("b", .ofVar 3)] 1)]⟩
    s.Acyclic ∧
      (s.Eliminates Ty.Free s.apply ∧ s.Eliminates Row.Free s.applyRow ∧ s.Eliminates Effects.Free s.applyEffects ∧
        ∀ t : Ty, t.isGround = true → s.apply t = t) ∧
      s.apply (.ofVar 0) = .list (.record (.openRecord [("a", .int), ("b", .ofVar 3)] 1)) := by
  intro s
  have hacyclic : s.Acyclic :=
    Ranked.acyclic (show s.Ranked (fun v => match v with | .type 0 => 3 | .type 1 => 2 | .row 0 => 1 | _ => 0) by decide)
  exact ⟨hacyclic, hacyclic.eliminates, by decide⟩

end Elimination

section Sorting

variable {s t : Substitution}

structure Sorted (s : Substitution) : Prop where
  types : s.types.Ascending
  rows : s.rows.Ascending
  ordered : s.Ordered

theorem sorted_empty : empty.Sorted :=
  ⟨.nil, .nil, nofun, nofun⟩

theorem Sorted.bindType (h : s.Sorted) {v : TypeVarId} {u : Ty} (hu : u.Ordered) : (s.bindType v u).Sorted :=
  ⟨OrderedMap.ascending_insert h.types v u, h.rows, All.bindType h.ordered hu⟩

theorem Sorted.bindRow (h : s.Sorted) {v : RowVarId} {r : Row} (hr : r.Ordered) : (s.bindRow v r).Sorted :=
  ⟨h.types, OrderedMap.ascending_insert h.rows v r, All.bindRow h.ordered hr⟩

theorem Sorted.lookupType_compose (h : s.Sorted) (id : TypeVarId) :
    (s.compose t).lookupType id = ((s.lookupType id).map t.apply).or (t.lookupType id) := by
  simp only [lookupType, compose, OrderedMap.find?_merge _ (OrderedMap.Ascending.mapValues t.apply h.types), OrderedMap.find?_mapValues]

theorem Sorted.lookupRow_compose (h : s.Sorted) (id : RowVarId) :
    (s.compose t).lookupRow id = ((s.lookupRow id).map t.applyRow).or (t.lookupRow id) := by
  simp only [lookupRow, compose, OrderedMap.find?_merge _ (OrderedMap.Ascending.mapValues t.applyRow h.rows), OrderedMap.find?_mapValues]

theorem Sorted.compose (hs : s.Sorted) (ht : t.Sorted) : (s.compose t).Sorted where
  types := OrderedMap.Ascending.merge ht.types _
  rows := OrderedMap.Ascending.merge ht.rows _
  ordered := by
    constructor
    · intro id u hu
      rw [hs.lookupType_compose] at hu
      rcases Option.or_eq_some_iff.mp hu with hu | ⟨-, hu⟩
      · obtain ⟨x, hx, rfl⟩ := Option.map_eq_some_iff.mp hu
        exact ht.ordered.apply (hs.ordered.1 id x hx)
      · exact ht.ordered.1 id u hu
    · intro id r hr
      rw [hs.lookupRow_compose] at hr
      rcases Option.or_eq_some_iff.mp hr with hr | ⟨-, hr⟩
      · obtain ⟨x, hx, rfl⟩ := Option.map_eq_some_iff.mp hr
        exact ht.ordered.applyRow (hs.ordered.2 id x hx)
      · exact ht.ordered.2 id r hr

end Sorting

section Sequence

variable {α : Type} {R S : α → α → Prop}

-- Behind an edge of the second kind there are edges of the second kind only.
theorem transGen_or_split (h : ∀ x y z, S x y → ¬ R y z) {x y : α} (hxy : TransGen (fun x y => R x y ∨ S x y) x y) :
    TransGen R x y ∨ ∃ z, ReflTransGen R x z ∧ TransGen S z y := by
  induction hxy with
  | single hstep => exact hstep.imp .single fun hS => ⟨x, .refl, .single hS⟩
  | tail _ hstep ih =>
      rcases ih, hstep with ⟨hR | ⟨z, hz, hS⟩, hstep | hstep⟩
      · exact .inl (hR.tail hstep)
      · exact .inr ⟨_, hR.to_reflTransGen, .single hstep⟩
      · obtain ⟨w, -, hw⟩ := TransGen.tail'_iff.mp hS
        exact absurd hstep (h w _ _ hw)
      · exact .inr ⟨z, hz, hS.tail hstep⟩

theorem no_cycle_or (h : ∀ x y z, S x y → ¬ R y z) (hR : ∀ x, ¬ TransGen R x x) (hS : ∀ x, ¬ TransGen S x x) (x : α) :
    ¬ TransGen (fun x y => R x y ∨ S x y) x x := by
  intro hx
  rcases transGen_or_split h hx with hx | ⟨z, hz, hS'⟩
  · exact hR x hx
  · obtain ⟨w, -, hw⟩ := TransGen.tail'_iff.mp hS'
    rcases ReflTransGen.cases_head hz with rfl | ⟨y, hy, -⟩
    · exact hS x hS'
    · exact h w x y hw hy

end Sequence

section Composition

variable {A B C : Substitution}

structure Before (A B : Substitution) : Prop where
  disjoint : ∀ v, A.Binds v → ¬ B.Binds v
  apart : ∀ v w, B.Depends v w → ¬ A.Binds w

theorem before_of_domain (h : ∀ v ∈ B.domain, v ∉ A.domain ∧ ∀ w ∈ B.uses v, w ∉ A.domain) : A.Before B where
  disjoint v hA hB := (h v (mem_domain hB)).1 (mem_domain hA)
  apart v w hvw hw := (h v (mem_domain hvw.binds)).2 w hvw (mem_domain hw)

theorem binds_compose (hA : A.Sorted) {v : Var} : (A.compose B).Binds v ↔ A.Binds v ∨ B.Binds v := by
  cases v with
  | type id =>
      simp only [Binds, hA.lookupType_compose]
      cases A.lookupType id <;> simp
  | row id =>
      simp only [Binds, hA.lookupRow_compose]
      cases A.lookupRow id <;> simp

theorem depends_compose (hA : A.Sorted) {v w : Var} (h : (A.compose B).Depends v w) :
    TransGen (fun x y => A.Depends x y ∨ B.Depends x y) v w := by
  have first {x y : Var} (hvx : A.Depends v x) (hxy : ReflTransGen B.Depends x y) :
      TransGen (fun x y => A.Depends x y ∨ B.Depends x y) v y :=
    .head' (.inl hvx) (ReflTransGen.mono (fun _ _ => .inr) _ _ hxy)
  cases v with
  | type id =>
      cases hx : A.lookupType id with
      | none =>
          have : (A.compose B).lookupType id = B.lookupType id := by rw [hA.lookupType_compose, hx]; rfl
          exact .single (.inr (by rwa [Depends, uses, this] at h))
      | some x =>
          rw [Depends, uses_type (t := B.apply x) (by rw [hA.lookupType_compose, hx]; rfl)] at h
          obtain ⟨u, hu, hpath⟩ := depends_of_apply h
          exact first (by rwa [Depends, uses_type hx]) hpath
  | row id =>
      cases hx : A.lookupRow id with
      | none =>
          have : (A.compose B).lookupRow id = B.lookupRow id := by rw [hA.lookupRow_compose, hx]; rfl
          exact .single (.inr (by rwa [Depends, uses, this] at h))
      | some x =>
          rw [Depends, uses_row (r := B.applyRow x) (by rw [hA.lookupRow_compose, hx]; rfl)] at h
          obtain ⟨u, hu, hpath⟩ := depends_of_applyRow h
          exact first (by rwa [Depends, uses_row hx]) hpath

structure Joins (C A B : Substitution) : Prop where
  acyclic : C.Acyclic
  ordered : C.Ordered
  first : C.Honours A
  second : C.Honours B
  binds : ∀ v, C.Binds v → A.Binds v ∨ B.Binds v

namespace Before

section Joining

variable (h : A.Before B)

include h

theorem acyclic_compose (hA : A.Sorted) (hA' : A.Acyclic) (hB' : B.Acyclic) : (A.compose B).Acyclic := by
  have hapart : ∀ x y z, B.Depends x y → ¬ A.Depends y z := fun x y z hxy hyz => h.apart x y hxy hyz.binds
  intro v hv
  apply no_cycle_or hapart hA' hB' v
  exact hv.lift' id fun x y => depends_compose hA

theorem extends_compose (hA : A.Sorted) : (A.compose B).Extends B := by
  constructor
  · intro id t ht
    have hnone : A.lookupType id = none := not_binds_type.mp fun hbound => h.disjoint _ hbound ⟨t, ht⟩
    rw [hA.lookupType_compose, hnone]
    exact ht
  · intro id r hr
    have hnone : A.lookupRow id = none := not_binds_row.mp fun hbound => h.disjoint _ hbound ⟨r, hr⟩
    rw [hA.lookupRow_compose, hnone]
    exact hr

theorem joins_compose (hA : A.Sorted) (hB : B.Sorted) (hA' : A.Acyclic) (hB' : B.Acyclic) : (A.compose B).Joins A B := by
  have hacyclic := h.acyclic_compose hA hA' hB'
  have hordered := (hA.compose hB).ordered
  have hsecond : (A.compose B).Honours B := (h.extends_compose hA).honours
  refine ⟨hacyclic, hordered, ⟨fun id t ht => ?_, fun id r hr => ?_⟩, hsecond, fun v => (binds_compose hA).mp⟩
  · rw [assigned, hA.lookupType_compose, ht]
    exact congrArg some (hacyclic.apply_absorbed hordered hsecond hB.ordered (hA.ordered.1 id t ht))
  · rw [assignedRow, hA.lookupRow_compose, hr]
    exact congrArg some (hacyclic.applyRow_absorbed hordered hsecond hB.ordered (hA.ordered.2 id r hr))

-- Nothing that either binds is left, so that both together change nothing any more.
theorem apply_both (hC : C.Joins A B) (hA : A.Sorted) (hB : B.Sorted) (hA' : A.Acyclic) (hB' : B.Acyclic) :
    (∀ t : Ty, t.Ordered → C.apply t = B.apply (A.apply t)) ∧
      ∀ r : Row, r.Ordered → C.applyRow r = B.applyRow (A.applyRow r) := by
  have hclosed : B.Closed fun v => ¬ A.Binds v := fun v w _ hvw => h.apart v w hvw
  constructor
  · intro t ht
    have hsame : C.apply (B.apply (A.apply t)) = B.apply (A.apply t) := by
      refine apply_of_free fun w hw hbound => (hC.binds w hbound).elim ?_ (hB'.free_of_apply hw)
      exact hclosed.apply (fun v => hA'.free_of_apply) w hw
    calc C.apply t = C.apply (A.apply t) := (hC.acyclic.apply_absorbed hC.ordered hC.first hA.ordered ht).symm
      _ = C.apply (B.apply (A.apply t)) := (hC.acyclic.apply_absorbed hC.ordered hC.second hB.ordered (hA.ordered.apply ht)).symm
      _ = B.apply (A.apply t) := hsame
  · intro r hr
    have hsame : C.applyRow (B.applyRow (A.applyRow r)) = B.applyRow (A.applyRow r) := by
      refine applyRow_of_free fun w hw hbound => (hC.binds w hbound).elim ?_ (hB'.free_of_applyRow hw)
      exact hclosed.applyRow (fun v => hA'.free_of_applyRow) w hw
    calc C.applyRow r = C.applyRow (A.applyRow r) := (hC.acyclic.applyRow_absorbed hC.ordered hC.first hA.ordered hr).symm
      _ = C.applyRow (B.applyRow (A.applyRow r)) :=
          (hC.acyclic.applyRow_absorbed hC.ordered hC.second hB.ordered (hA.ordered.applyRow hr)).symm
      _ = B.applyRow (A.applyRow r) := hsame

theorem apply_compose (hA : A.Sorted) (hB : B.Sorted) (hA' : A.Acyclic) (hB' : B.Acyclic) :
    (A.compose B).Acyclic ∧ (∀ t : Ty, t.Ordered → (A.compose B).apply t = B.apply (A.apply t)) ∧
      (∀ r : Row, r.Ordered → (A.compose B).applyRow r = B.applyRow (A.applyRow r)) ∧
      ∀ e : Effects, (∀ r ∈ e, Row.Ordered r) → (A.compose B).applyEffects e = B.applyEffects (A.applyEffects e) := by
  have hboth := h.apply_both (h.joins_compose hA hB hA' hB') hA hB hA' hB'
  refine ⟨h.acyclic_compose hA hA' hB', hboth.1, hboth.2, fun e he => ?_⟩
  cases e with
  | none => rfl
  | some r => exact congrArg some (hboth.2 r (he r rfl))

end Joining

theorem apply_compose_overwritten :
    let A := (empty.bindType 0 (.list (.ofVar 1))).bindRow 0 (.openRecord [("a", .ofVar 1)] 1)
    let B := (empty.bindType 1 .int).bindRow 1 (.openRecord [("a", .string), ("b", .ofVar 2)] 2)
    (A.Before B ∧ A.Sorted ∧ B.Sorted ∧ A.Acyclic ∧ B.Acyclic) ∧
      ((A.compose B).Acyclic ∧ (∀ t : Ty, t.Ordered → (A.compose B).apply t = B.apply (A.apply t)) ∧
        (∀ r : Row, r.Ordered → (A.compose B).applyRow r = B.applyRow (A.applyRow r)) ∧
        ∀ e : Effects, (∀ r ∈ e, Row.Ordered r) → (A.compose B).applyEffects e = B.applyEffects (A.applyEffects e)) ∧
      (A.compose B).applyRow (.openRecord [("c", .ofVar 0)] 0) =
        .openRecord [("a", .string), ("b", .ofVar 2), ("c", .list .int)] 2 := by
  intro A B
  have hA : A.Sorted := (sorted_empty.bindType (by decide)).bindRow (by decide)
  have hB : B.Sorted := (sorted_empty.bindType (by decide)).bindRow (by decide)
  have hA' : A.Acyclic :=
    Ranked.acyclic (show A.Ranked (fun v => match v with | .type 0 => 1 | .row 0 => 1 | _ => 0) by decide)
  have hB' : B.Acyclic :=
    Ranked.acyclic (show B.Ranked (fun v => match v with | .type 1 => 1 | .row 1 => 1 | _ => 0) by decide)
  have h : A.Before B := before_of_domain (by decide)
  exact ⟨⟨h, hA, hB, hA', hB'⟩, h.apply_compose hA hB hA' hB', by decide⟩

end Before

theorem Joins.symm (h : C.Joins A B) : C.Joins B A :=
  ⟨h.acyclic, h.ordered, h.second, h.first, fun v hv => (h.binds v hv).symm⟩

theorem Before.apply_comm (h : A.Before B) (h' : B.Before A) (hA : A.Sorted) (hB : B.Sorted) (hA' : A.Acyclic)
    (hB' : B.Acyclic) {t : Ty} (ht : t.Ordered) : A.apply (B.apply t) = B.apply (A.apply t) := by
  have hC := h.joins_compose hA hB hA' hB'
  rw [← (h.apply_both hC hA hB hA' hB').1 t ht, ← (h'.apply_both hC.symm hB hA hB' hA').1 t ht]

end Composition

end Substitution

end RowTyping
