import RowTyping.Unify.Supply
import RowTyping.Proofs.Assignment

namespace RowTyping

open Relation

section Edges

variable {α : Type} {R R' : α → α → Prop}

-- An edge into a node without edges of its own lies on no cycle.
theorem transGen_of_inner (h : ∀ x y, R' x y → (∃ z, R' y z) → R x y) {x y : α} (hxy : TransGen R' x y)
    (hy : ∃ z, R' y z) : TransGen R x y := by
  induction hxy with
  | single hstep => exact .single (h _ _ hstep hy)
  | tail _ hstep ih => exact (ih ⟨_, hstep⟩).tail (h _ _ hstep hy)

theorem no_cycle_of_inner (h : ∀ x y, R' x y → (∃ z, R' y z) → R x y) (hR : ∀ x, ¬ TransGen R x x) (x : α) :
    ¬ TransGen R' x x := by
  intro hx
  obtain ⟨y, hy, _⟩ := TransGen.head'_iff.mp hx
  exact hR x (transGen_of_inner h hx ⟨y, hy⟩)

end Edges

namespace Supply

def Covers (s : Supply) : Var → Prop
  | .type id => id < s.nextType
  | .row id => id < s.nextRow

instance (s : Supply) : (v : Var) → Decidable (s.Covers v)
  | .type id => inferInstanceAs (Decidable (id < s.nextType))
  | .row id => inferInstanceAs (Decidable (id < s.nextRow))

theorem Covers.freshRow {s : Supply} {v : Var} (h : s.Covers v) : s.freshRow.2.Covers v := by
  cases v with
  | type => exact h
  | row => exact Nat.lt_succ_of_lt h

end Supply

def Ty.Within (s : Supply) (t : Ty) : Prop :=
  t.Ordered ∧ ∀ v ∈ t.vars, s.Covers v

def Row.Within (s : Supply) (r : Row) : Prop :=
  r.Ordered ∧ ∀ v ∈ r.vars, s.Covers v

instance (s : Supply) (t : Ty) : Decidable (t.Within s) :=
  inferInstanceAs (Decidable (t.Ordered ∧ _))

instance (s : Supply) (r : Row) : Decidable (r.Within s) :=
  inferInstanceAs (Decidable (r.Ordered ∧ _))

section Within

variable {s s' : Supply} {σ : TypeVarId → Option Ty} {ρ : RowVarId → Option Row}

theorem Ty.Within.mono (h : ∀ v, s.Covers v → s'.Covers v) {t : Ty} (ht : t.Within s) : t.Within s' :=
  ⟨ht.1, fun v hv => h v (ht.2 v hv)⟩

theorem Row.Within.mono (h : ∀ v, s.Covers v → s'.Covers v) {r : Row} (hr : r.Within s) : r.Within s' :=
  ⟨hr.1, fun v hv => h v (hr.2 v hv)⟩

theorem covers_image (hσ : ∀ id x, σ id = some x → x.Within s) (hρ : ∀ id x, ρ id = some x → x.Within s) {v w : Var}
    (hv : s.Covers v) (hw : w ∈ Ty.image σ ρ v) : s.Covers w := by
  cases v with
  | type id =>
      cases hx : σ id with
      | none => simpa [Ty.image, hx, show w = .type id by simpa [Ty.image, hx] using hw] using hv
      | some x => exact (hσ id x hx).2 w (by simpa [Ty.image, hx] using hw)
  | row id =>
      cases hx : ρ id with
      | none => simpa [Ty.image, hx, show w = .row id by simpa [Ty.image, hx] using hw] using hv
      | some x => exact (hρ id x hx).2 w (by simpa [Ty.image, hx] using hw)

theorem Ty.Within.subst {t : Ty} (ht : t.Within s) (hσ : ∀ id x, σ id = some x → x.Within s)
    (hρ : ∀ id x, ρ id = some x → x.Within s) : (t.subst σ ρ).Within s := by
  refine ⟨ht.1.subst (fun id x hx => (hσ id x hx).1) fun id x hx => (hρ id x hx).1, ?_⟩
  intro w hw
  obtain ⟨v, hv, hw⟩ := Ty.mem_vars_subst hw
  exact covers_image hσ hρ (ht.2 v hv) hw

theorem Row.Within.substRow {r : Row} (hr : r.Within s) (hσ : ∀ id x, σ id = some x → x.Within s)
    (hρ : ∀ id x, ρ id = some x → x.Within s) : (Ty.substRow σ ρ r).Within s := by
  refine ⟨Ty.ordered_substRow hr.1 (fun id x hx => (hσ id x hx).1) fun id x hx => (hρ id x hx).1, ?_⟩
  intro w hw
  obtain ⟨v, hv, hw⟩ := Ty.mem_vars_substRow hw
  exact covers_image hσ hρ (hr.2 v hv) hw

theorem Row.Within.ascending {r : Row} (h : r.Within s) : OrderedMap.Ascending r.fields :=
  (Row.ordered_iff.mp h.1).1

theorem substitutive_within (s : Supply) : Substitutive (Ty.Within s) (Row.Within s) :=
  ⟨fun hσ hρ _ ht => ht.subst hσ hρ, fun hσ hρ _ hr => hr.substRow hσ hρ⟩

end Within

namespace Substitution

def Within (sup : Supply) (s : Substitution) : Prop :=
  s.All (Ty.Within sup) (Row.Within sup)

variable {sup : Supply} {s : Substitution}

theorem Within.ordered (h : s.Within sup) : s.Ordered :=
  ⟨fun id t ht => (h.1 id t ht).1, fun id r hr => (h.2 id r hr).1⟩

theorem Within.apply (h : s.Within sup) {t : Ty} (ht : t.Within sup) : (s.apply t).Within sup :=
  All.apply h (substitutive_within sup) ht

theorem Within.applyRow (h : s.Within sup) {r : Row} (hr : r.Within sup) : (s.applyRow r).Within sup :=
  All.applyRow h (substitutive_within sup) hr

theorem Within.applyEffects (h : s.Within sup) {e : Effects} (he : e.toRow.Within sup) : (s.applyEffects e).toRow.Within sup := by
  cases e with
  | none => exact he
  | some r => exact h.applyRow he

theorem not_binds_empty (v : Var) : ¬ empty.Binds v := by
  cases v with
  | type => exact fun ⟨_, h⟩ => by cases h
  | row => exact fun ⟨_, h⟩ => by cases h

theorem acyclic_empty : empty.Acyclic :=
  acyclic_of_rank (fun _ => 0) fun v _ h => absurd h.binds (not_binds_empty v)

theorem within_empty (sup : Supply) : empty.Within sup := by
  constructor
  · rintro id t ⟨⟩
  · rintro id r ⟨⟩

def Extends (s' s : Substitution) : Prop :=
  (∀ id t, s.lookupType id = some t → s'.lookupType id = some t) ∧
    ∀ id r, s.lookupRow id = some r → s'.lookupRow id = some r

theorem Extends.refl (s : Substitution) : s.Extends s :=
  ⟨fun _ _ h => h, fun _ _ h => h⟩

theorem Extends.trans {s₁ s₂ s₃ : Substitution} (h : s₃.Extends s₂) (h' : s₂.Extends s₁) : s₃.Extends s₁ :=
  ⟨fun id t ht => h.1 id t (h'.1 id t ht), fun id r hr => h.2 id r (h'.2 id r hr)⟩

section Binding

theorem lookupType_bindType (s : Substitution) (v : TypeVarId) (t : Ty) (id : TypeVarId) :
    (s.bindType v t).lookupType id = if id = v then some t else s.lookupType id :=
  OrderedMap.find?_insert _ _ _ _

theorem lookupRow_bindType (s : Substitution) (v : TypeVarId) (t : Ty) (id : RowVarId) :
    (s.bindType v t).lookupRow id = s.lookupRow id := rfl

theorem lookupType_bindRow (s : Substitution) (v : RowVarId) (r : Row) (id : TypeVarId) :
    (s.bindRow v r).lookupType id = s.lookupType id := rfl

theorem lookupRow_bindRow (s : Substitution) (v : RowVarId) (r : Row) (id : RowVarId) :
    (s.bindRow v r).lookupRow id = if id = v then some r else s.lookupRow id :=
  OrderedMap.find?_insert _ _ _ _

theorem not_binds_type {id : TypeVarId} : ¬ s.Binds (.type id) ↔ s.lookupType id = none := by
  simp [Binds, Option.eq_none_iff_forall_ne_some]

theorem not_binds_row {id : RowVarId} : ¬ s.Binds (.row id) ↔ s.lookupRow id = none := by
  simp [Binds, Option.eq_none_iff_forall_ne_some]

variable {v : TypeVarId} {t : Ty} {r : RowVarId} {row : Row} {x y : Var}

theorem extends_bindType (hv : ¬ s.Binds (.type v)) : (s.bindType v t).Extends s := by
  refine ⟨fun id u hu => ?_, fun _ _ h => h⟩
  rw [lookupType_bindType]
  by_cases hid : id = v
  · subst hid
    exact absurd ⟨u, hu⟩ hv
  · rwa [if_neg hid]

theorem extends_bindRow (hr : ¬ s.Binds (.row r)) : (s.bindRow r row).Extends s := by
  refine ⟨fun _ _ h => h, fun id u hu => ?_⟩
  rw [lookupRow_bindRow]
  by_cases hid : id = r
  · subst hid
    exact absurd ⟨u, hu⟩ hr
  · rwa [if_neg hid]

theorem binds_bindType : (s.bindType v t).Binds x ↔ x = .type v ∨ s.Binds x := by
  cases x with
  | type id =>
      simp only [Binds, lookupType_bindType, Var.type.injEq]
      by_cases hid : id = v <;> simp [hid]
  | row id => simp [Binds, lookupRow_bindType]

theorem binds_bindRow : (s.bindRow r row).Binds x ↔ x = .row r ∨ s.Binds x := by
  cases x with
  | type id => simp [Binds, lookupType_bindRow]
  | row id =>
      simp only [Binds, lookupRow_bindRow, Var.row.injEq]
      by_cases hid : id = r <;> simp [hid]

theorem depends_bindType : (s.bindType v t).Depends x y ↔ (x = .type v ∧ y ∈ t.vars) ∨ (x ≠ .type v ∧ s.Depends x y) := by
  cases x with
  | type id =>
      simp only [Depends, uses, lookupType_bindType, Var.type.injEq, ne_eq]
      by_cases hid : id = v <;> simp [hid]
  | row id => simp [Depends, uses, lookupRow_bindType]

theorem depends_bindRow : (s.bindRow r row).Depends x y ↔ (x = .row r ∧ y ∈ row.vars) ∨ (x ≠ .row r ∧ s.Depends x y) := by
  cases x with
  | type id => simp [Depends, uses, lookupType_bindRow]
  | row id =>
      simp only [Depends, uses, lookupRow_bindRow, Var.row.injEq, ne_eq]
      by_cases hid : id = r <;> simp [hid]

theorem Stands.binds (h : s.Stands x y) : s.Binds x :=
  h.depends.binds

theorem stands_bindType (h : (s.bindType v t).Stands x y) : s.Stands x y ∨ ∃ w, t = .var w ∧ y = .type w.id := by
  cases x with
  | type id =>
      obtain ⟨w, hw, rfl⟩ := h
      rw [lookupType_bindType] at hw
      by_cases hid : id = v
      · rw [if_pos hid] at hw
        exact .inr ⟨w, Option.some.inj hw, rfl⟩
      · rw [if_neg hid] at hw
        exact .inl ⟨w, hw, rfl⟩
  | row id => exact .inl h

theorem stands_bindRow (h : (s.bindRow r row).Stands x y) : s.Stands x y ∨ ∃ w, row.rest = some w ∧ y = .row w := by
  cases x with
  | type id => exact .inl h
  | row id =>
      obtain ⟨u, w, hu, hw, rfl⟩ := h
      rw [lookupRow_bindRow] at hu
      by_cases hid : id = r
      · rw [if_pos hid] at hu
        cases hu
        exact .inr ⟨w, hw, rfl⟩
      · rw [if_neg hid] at hu
        exact .inl ⟨u, w, hu, hw, rfl⟩

theorem Chainless.bindType (h : s.Chainless) (hself : Var.type v ∉ t.vars)
    (ht : ∀ w, t = .var w → ¬ s.Binds (.type w.id)) : (s.bindType v t).Chainless := by
  refine no_cycle_of_inner ?_ h
  rintro x y hxy ⟨z, hz⟩
  rcases stands_bindType hxy with hxy | ⟨w, rfl, rfl⟩
  · exact hxy
  rcases binds_bindType.mp hz.binds with hwv | hbound
  · exact absurd (by simp [hwv]) hself
  · exact absurd hbound (ht w rfl)

theorem Chainless.bindRow (h : s.Chainless) (hself : Var.row r ∉ row.vars)
    (hrest : ∀ w, row.rest = some w → ¬ s.Binds (.row w)) : (s.bindRow r row).Chainless := by
  refine no_cycle_of_inner ?_ h
  rintro x y hxy ⟨z, hz⟩
  rcases stands_bindRow hxy with hxy | ⟨w, hw, rfl⟩
  · exact hxy
  obtain ⟨k, fs, rest⟩ := row
  rcases binds_bindRow.mp hz.binds with hwr | hbound
  · cases hwr
    exact absurd (Row.mem_vars.mpr (.inr ⟨r, hw, rfl⟩)) hself
  · exact absurd hbound (hrest w hw)

section All

variable {P : Ty → Prop} {Q : Row → Prop}

theorem All.bindType (h : s.All P Q) (ht : P t) : (s.bindType v t).All P Q := by
  refine ⟨fun id u hu => ?_, h.2⟩
  rw [lookupType_bindType] at hu
  by_cases hid : id = v
  · rw [if_pos hid] at hu
    cases hu
    exact ht
  · rw [if_neg hid] at hu
    exact h.1 id u hu

theorem All.bindRow (h : s.All P Q) (hrow : Q row) : (s.bindRow r row).All P Q := by
  refine ⟨h.1, fun id u hu => ?_⟩
  rw [lookupRow_bindRow] at hu
  by_cases hid : id = r
  · rw [if_pos hid] at hu
    cases hu
    exact hrow
  · rw [if_neg hid] at hu
    exact h.2 id u hu

end All

end Binding

section Extension

variable {s' : Substitution}

theorem Extends.depends (h : s'.Extends s) {v w : Var} (hvw : s.Depends v w) : s'.Depends v w := by
  cases v with
  | type id =>
      obtain ⟨t, ht⟩ := hvw.binds
      rw [Depends, uses_type ht] at hvw
      rwa [Depends, uses_type (h.1 id t ht)]
  | row id =>
      obtain ⟨r, hr⟩ := hvw.binds
      rw [Depends, uses_row hr] at hvw
      rwa [Depends, uses_row (h.2 id r hr)]

theorem Extends.acyclic (h : s'.Extends s) (hs : s'.Acyclic) : s.Acyclic :=
  fun v hv => hs v (TransGen.mono (fun _ _ => h.depends) v v hv)

theorem Acyclic.bindType (h : s.Acyclic) {v : TypeVarId} {t : Ty} (hself : Var.type v ∉ t.vars)
    (ht : ∀ w ∈ t.vars, ¬ s.Binds w) : (s.bindType v t).Acyclic := by
  refine no_cycle_of_inner ?_ h
  rintro x y hxy ⟨z, hz⟩
  rcases depends_bindType.mp hxy with ⟨_, hy⟩ | ⟨_, hxy⟩
  · rcases binds_bindType.mp hz.binds with rfl | hbound
    · exact absurd hy hself
    · exact absurd hbound (ht y hy)
  · exact hxy

def Reaches (s : Substitution) (row : Row) (r : RowVarId) : Prop :=
  ∃ w ∈ row.vars, ReflTransGen s.Depends w (.row r)

theorem transGen_bindRow {r : RowVarId} {row : Row} {x y : Var} (h : TransGen (s.bindRow r row).Depends x y) :
    TransGen s.Depends x y ∨
      (ReflTransGen s.Depends x (.row r) ∧ ∃ w ∈ row.vars, ReflTransGen s.Depends w y) := by
  induction h with
  | single hstep =>
      rcases depends_bindRow.mp hstep with ⟨rfl, hy⟩ | ⟨_, hstep⟩
      · exact .inr ⟨.refl, _, hy, .refl⟩
      · exact .inl (.single hstep)
  | tail _ hstep ih =>
      rcases depends_bindRow.mp hstep with ⟨rfl, hy⟩ | ⟨_, hstep⟩
      · rcases ih with hpath | ⟨hpath, _⟩
        · exact .inr ⟨hpath.to_reflTransGen, _, hy, .refl⟩
        · exact .inr ⟨hpath, _, hy, .refl⟩
      · rcases ih with hpath | ⟨hpath, w, hw, hwb⟩
        · exact .inl (hpath.tail hstep)
        · exact .inr ⟨hpath, w, hw, hwb.tail hstep⟩

theorem Acyclic.bindRow_iff (h : s.Acyclic) {r : RowVarId} (hr : ¬ s.Binds (.row r)) (row : Row) :
    (s.bindRow r row).Acyclic ↔ ¬ s.Reaches row r := by
  constructor
  · rintro hacyclic ⟨w, hw, hpath⟩
    have hback : ReflTransGen (s.bindRow r row).Depends w (.row r) :=
      ReflTransGen.mono (fun _ _ => (extends_bindRow hr).depends) _ _ hpath
    exact hacyclic (.row r) (.head' (depends_bindRow.mpr (.inl ⟨rfl, hw⟩)) hback)
  · intro hreach v hv
    rcases transGen_bindRow hv with hv | ⟨hvr, w, hw, hwv⟩
    · exact h v hv
    · exact hreach ⟨w, hw, hwv.trans hvr⟩

theorem All.of_extends {P : Ty → Prop} {Q : Row → Prop} (hs : s'.All P Q) (h : s'.Extends s) : s.All P Q :=
  ⟨fun id t ht => hs.1 id t (h.1 id t ht), fun id r hr => hs.2 id r (h.2 id r hr)⟩

theorem Ordered.of_extends (hs : s'.Ordered) (h : s'.Extends s) : s.Ordered :=
  All.of_extends hs h

end Extension

end Substitution

theorem Assignment.Models.of_extends {A : Assignment} {s s' : Substitution} (h : A.Models s') (hext : s'.Extends s) :
    A.Models s :=
  ⟨fun id t ht => h.1 id t (hext.1 id t ht), fun id r hr => h.2 id r (hext.2 id r hr)⟩

end RowTyping
