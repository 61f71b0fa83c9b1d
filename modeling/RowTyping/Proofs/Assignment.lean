import RowTyping.Proofs.Dependency
/-!
What types mean when every variable is given a type and every tail its fields. Purity means the empty closed
row, so that types with the same meaning under the identity differ in nothing else.
-/

namespace RowTyping

structure Tail where
  fields : OrderedMap Label Ty
  rest : Option RowVarId
  deriving DecidableEq

def Row.tail (r : Row) : Tail :=
  ⟨r.fields, r.rest⟩

structure Assignment where
  type : TypeVar → Ty
  row : RowVarId → Tail

def Assignment.identity : Assignment :=
  ⟨.var, fun r => ⟨[], some r⟩⟩

namespace Ty

mutual

def value (A : Assignment) : Ty → Ty
  | .var v => A.type v
  | .con name => .con name
  | .app h as => .app (h.value A) (valueAll A as)
  | .list a => .list (a.value A)
  | .tuple as => .tuple (valueAll A as)
  | .fn ps e r => .fn (valueAll A ps) (some (valueEffects A e)) (r.value A)
  | .record r => .record (valueRow A r)
termination_by structural t => t

def valueAll (A : Assignment) : List Ty → List Ty
  | [] => []
  | t :: ts => t.value A :: valueAll A ts
termination_by structural ts => ts

def valueEffects (A : Assignment) : Option Row → Row
  | none => .closedEffects []
  | some r => valueRow A r
termination_by structural e => e

def valueRow (A : Assignment) : Row → Row
  | ⟨k, fs, rest⟩ =>
      match rest with
      | none => ⟨k, valueFields A fs, none⟩
      | some r => ⟨k, OrderedMap.merge (valueFields A fs) (A.row r).fields, (A.row r).rest⟩
termination_by structural r => r

def valueFields (A : Assignment) : List (Label × Ty) → List (Label × Ty)
  | [] => []
  | (l, t) :: fs => (l, t.value A) :: valueFields A fs
termination_by structural fs => fs

end

theorem valueAll_eq (A : Assignment) (ts : List Ty) : valueAll A ts = ts.map (value A) := by
  induction ts with
  | nil => rfl
  | cons t ts ih => simp [valueAll, ih]

theorem valueFields_eq (A : Assignment) (fs : List (Label × Ty)) :
    valueFields A fs = OrderedMap.mapValues (value A) fs := by
  induction fs with
  | nil => rfl
  | cons f fs ih => simp only [valueFields, ih, OrderedMap.mapValues, List.map_cons]

def explicit (t : Ty) : Ty :=
  t.value .identity

end Ty

namespace Row

def value (A : Assignment) (r : Row) : Row :=
  Ty.valueRow A r

def explicit (r : Row) : Row :=
  r.value .identity

end Row

variable {A : Assignment}

namespace Ty

@[simp]
theorem value_var (v : TypeVar) : (Ty.var v).value A = A.type v := rfl

@[simp]
theorem value_con (name : String) : (Ty.con name).value A = .con name := rfl

@[simp]
theorem value_app (h : Ty) (as : List Ty) : (Ty.app h as).value A = .app (h.value A) (as.map (value A)) :=
  congrArg _ (valueAll_eq A as)

@[simp]
theorem value_list (a : Ty) : (Ty.list a).value A = .list (a.value A) := rfl

@[simp]
theorem value_tuple (as : List Ty) : (Ty.tuple as).value A = .tuple (as.map (value A)) :=
  congrArg _ (valueAll_eq A as)

@[simp]
theorem value_fn (ps : List Ty) (e : Effects) (r : Ty) :
    (Ty.fn ps e r).value A = .fn (ps.map (value A)) (some ((Effects.toRow e).value A)) (r.value A) := by
  change Ty.fn (valueAll A ps) (some (valueEffects A e)) (r.value A) = _
  rw [valueAll_eq]
  cases e <;> rfl

@[simp]
theorem value_record (r : Row) : (Ty.record r).value A = .record (r.value A) := rfl

end Ty

namespace Row

@[simp]
theorem value_closed (k : Kind) (fs : List (Label × Ty)) :
    (Row.mk k fs none).value A = ⟨k, OrderedMap.mapValues (Ty.value A) fs, none⟩ := by
  rw [← Ty.valueFields_eq]
  rfl

@[simp]
theorem value_opened (k : Kind) (fs : List (Label × Ty)) (r : RowVarId) :
    (Row.mk k fs (some r)).value A =
      ⟨k, OrderedMap.merge (OrderedMap.mapValues (Ty.value A) fs) (A.row r).fields, (A.row r).rest⟩ := by
  rw [← Ty.valueFields_eq]
  rfl

@[simp]
theorem value_kind (r : Row) : (r.value A).kind = r.kind := by
  obtain ⟨k, fs, rest⟩ := r
  cases rest <;> simp

end Row

namespace Assignment

def Ordered (A : Assignment) : Prop :=
  ∀ r, OrderedMap.Ascending (A.row r).fields

def after (A : Assignment) (σ : TypeVarId → Option Ty) (ρ : RowVarId → Option Row) : Assignment where
  type v := ((σ v.id).map (Ty.value A)).getD (A.type v)
  row r := ((ρ r).map fun row => (row.value A).tail).getD (A.row r)

def AgreeOn (A B : Assignment) : Occurrence → Prop
  | .type v => A.type v = B.type v
  | .tail r _ => A.row r = B.row r

end Assignment

namespace Ty

theorem value_congr_both {A B : Assignment} :
    (∀ t : Ty, (∀ o ∈ t.occurrences, A.AgreeOn B o) → t.value A = t.value B) ∧
      ∀ r : Row, (∀ o ∈ r.occurrences, A.AgreeOn B o) → r.value A = r.value B := by
  apply Ty.induct_rows
  case var => exact fun v h => h (.type v) (mem_occurrences_var.mpr rfl)
  case con => simp
  case app =>
    intro f as hf has h
    rw [value_app, value_app, hf fun o ho => h o (mem_occurrences_app.mpr (.inl ho))]
    congr 1
    exact List.map_congr_left fun a ha => has a ha fun o ho => h o (mem_occurrences_app.mpr (.inr ⟨a, ha, ho⟩))
  case list =>
    intro a ha h
    rw [value_list, value_list, ha fun o ho => h o (mem_occurrences_list.mpr ho)]
  case tuple =>
    intro as has h
    rw [value_tuple, value_tuple]
    congr 1
    exact List.map_congr_left fun a ha => has a ha fun o ho => h o (mem_occurrences_tuple.mpr ⟨a, ha, ho⟩)
  case fn =>
    intro ps e r hps he hr h
    rw [value_fn, value_fn, hr fun o ho => h o (mem_occurrences_fn.mpr (.inr (.inr ho)))]
    have hmap : ps.map (value A) = ps.map (value B) :=
      List.map_congr_left fun p hp => hps p hp fun o ho => h o (mem_occurrences_fn.mpr (.inl ⟨p, hp, ho⟩))
    have heff : (Effects.toRow e).value A = (Effects.toRow e).value B := by
      cases e with
      | none => rfl
      | some row => exact he row rfl fun o ho => h o (mem_occurrences_fn.mpr (.inr (.inl ⟨row, rfl, ho⟩)))
    rw [hmap, heff]
  case record =>
    intro r hr h
    rw [value_record, value_record, hr fun o ho => h o (mem_occurrences_record.mpr ho)]
  case row =>
    intro k fs rest hfs h
    have hmap : OrderedMap.mapValues (value A) fs = OrderedMap.mapValues (value B) fs :=
      OrderedMap.mapValues_congr fun f hf => hfs f hf fun o ho => h o (Row.mem_occurrences.mpr (.inl ⟨f, hf, ho⟩))
    cases rest with
    | none => rw [Row.value_closed, Row.value_closed, hmap]
    | some r =>
        have hr : A.row r = B.row r := h (.tail r k) (Row.mem_occurrences.mpr (.inr ⟨r, rfl, rfl⟩))
        rw [Row.value_opened, Row.value_opened, hmap, hr]

theorem value_congr {A B : Assignment} {t : Ty} (h : ∀ o ∈ t.occurrences, A.AgreeOn B o) : t.value A = t.value B :=
  value_congr_both.1 t h

theorem value_congr_row {A B : Assignment} {r : Row} (h : ∀ o ∈ r.occurrences, A.AgreeOn B o) : r.value A = r.value B :=
  value_congr_both.2 r h

variable {σ : TypeVarId → Option Ty} {ρ : RowVarId → Option Row}

theorem value_subst_both (hA : A.Ordered) (hρ : ∀ id r, ρ id = some r → OrderedMap.Ascending r.fields) :
    (∀ t : Ty, t.Ordered → (t.subst σ ρ).value A = t.value (A.after σ ρ)) ∧
      ∀ r : Row, r.Ordered → (substRow σ ρ r).value A = r.value (A.after σ ρ) := by
  apply Ty.induct_rows
  case var =>
    intro v _
    cases hv : σ v.id <;> simp [Assignment.after, hv]
  case con => simp
  case app =>
    intro f as hf has h
    rw [subst_app, value_app, value_app, hf fun r hr => h r (mem_rows_app.mpr (.inl hr)), List.map_map]
    congr 1
    exact List.map_congr_left fun a ha => has a ha fun r hr => h r (mem_rows_app.mpr (.inr ⟨a, ha, hr⟩))
  case list =>
    intro a ha h
    rw [subst_list, value_list, value_list, ha fun r hr => h r (mem_rows_list.mpr hr)]
  case tuple =>
    intro as has h
    rw [subst_tuple, value_tuple, value_tuple, List.map_map]
    congr 1
    exact List.map_congr_left fun a ha => has a ha fun r hr => h r (mem_rows_tuple.mpr ⟨a, ha, hr⟩)
  case fn =>
    intro ps e r hps he hr h
    have hmap : (ps.map (subst σ ρ)).map (value A) = ps.map (value (A.after σ ρ)) := by
      rw [List.map_map]
      exact List.map_congr_left fun p hp => hps p hp fun r hr => h r (mem_rows_fn.mpr (.inl ⟨p, hp, hr⟩))
    have heff : (Effects.toRow (e.map (substRow σ ρ))).value A = (Effects.toRow e).value (A.after σ ρ) := by
      cases e with
      | none => rfl
      | some row => exact he row rfl fun r hr => h r (mem_rows_fn.mpr (.inr (.inl ⟨row, rfl, hr⟩)))
    rw [subst_fn, value_fn, value_fn, hr fun r' hr' => h r' (mem_rows_fn.mpr (.inr (.inr hr'))), hmap, heff]
  case record =>
    intro r hr h
    rw [subst_record, value_record, value_record, hr fun r' hr' => h r' (mem_rows_record.mpr hr')]
  case row =>
    intro k fs rest hfs h
    obtain ⟨hasc, hord⟩ := Row.ordered_iff.mp h
    have hmap : OrderedMap.mapValues (value A) (OrderedMap.mapValues (subst σ ρ) fs) =
        OrderedMap.mapValues (value (A.after σ ρ)) fs := by
      rw [OrderedMap.mapValues, OrderedMap.mapValues, List.map_map]
      exact List.map_congr_left fun f hf => by simp [hfs f hf (hord f hf)]
    have hvalue : OrderedMap.Ascending (OrderedMap.mapValues (value (A.after σ ρ)) fs) :=
      OrderedMap.Ascending.mapValues _ hasc
    cases rest with
    | none => rw [substRow_closed, Row.value_closed, Row.value_closed, hmap]
    | some r =>
        cases htail : ρ r with
        | none =>
            rw [substRow_free htail, Row.value_opened, Row.value_opened, hmap]
            simp [Assignment.after, htail]
        | some tail =>
            obtain ⟨k', gs, rest'⟩ := tail
            have hgs : OrderedMap.Ascending (OrderedMap.mapValues (value A) gs) :=
              OrderedMap.Ascending.mapValues _ (hρ r _ htail)
            rw [substRow_bound htail, Row.value_opened]
            simp only [Assignment.after, htail, Option.map_some, Option.getD_some, Row.tail]
            cases rest' with
            | none =>
                rw [Row.value_closed, Row.value_closed, OrderedMap.mapValues_merge, hmap]
                rfl
            | some s =>
                rw [Row.value_opened, Row.value_opened, OrderedMap.mapValues_merge, hmap,
                  OrderedMap.merge_assoc hvalue hgs (hA s)]
                rfl

end Ty

theorem Row.ascending_value {r : Row} (h : OrderedMap.Ascending r.fields) : OrderedMap.Ascending (r.value A).fields := by
  obtain ⟨k, fs, rest⟩ := r
  cases rest with
  | none =>
      rw [Row.value_closed]
      exact OrderedMap.Ascending.mapValues _ h
  | some r =>
      rw [Row.value_opened]
      exact OrderedMap.Ascending.merge (OrderedMap.Ascending.mapValues _ h) _

namespace Assignment

def tail (A : Assignment) : Option RowVarId → Tail
  | none => ⟨[], none⟩
  | some r => A.row r

theorem Ordered.tail {A : Assignment} (hA : A.Ordered) (rest : Option RowVarId) :
    OrderedMap.Ascending (A.tail rest).fields := by
  cases rest with
  | none => exact List.Pairwise.nil
  | some r => exact hA r

end Assignment

namespace Row

theorem value_eq (A : Assignment) (r : Row) :
    r.value A = ⟨r.kind, OrderedMap.merge (OrderedMap.mapValues (Ty.value A) r.fields) (A.tail r.rest).fields,
      (A.tail r.rest).rest⟩ := by
  obtain ⟨k, fs, rest⟩ := r
  cases rest with
  | none => rw [value_closed]; rfl
  | some r => rw [value_opened]; rfl

theorem get?_value (hA : A.Ordered) (r : Row) (l : Label) :
    (r.value A).get? l = (OrderedMap.find? (A.tail r.rest).fields l).or ((r.get? l).map (Ty.value A)) := by
  rw [value_eq, get?, OrderedMap.find?_merge _ (hA.tail _), OrderedMap.find?_mapValues]
  rfl

theorem tail_value (r : Row) :
    (r.value A).tail = ⟨OrderedMap.merge (OrderedMap.mapValues (Ty.value A) r.fields) (A.tail r.rest).fields,
      (A.tail r.rest).rest⟩ := by
  rw [value_eq]
  rfl

theorem rest_value (r : Row) : (r.value A).rest = (A.tail r.rest).rest := by
  rw [value_eq]

end Row

namespace Substitution

variable {s : Substitution}

def Ordered (s : Substitution) : Prop :=
  s.All Ty.Ordered Row.Ordered

theorem Ordered.apply (hs : s.Ordered) {t : Ty} (ht : t.Ordered) : (s.apply t).Ordered :=
  All.apply hs substitutive_ordered ht

theorem Ordered.applyRow (hs : s.Ordered) {r : Row} (hr : r.Ordered) : (s.applyRow r).Ordered :=
  All.applyRow hs substitutive_ordered hr

end Substitution

namespace Assignment

variable {s : Substitution}

def Models (A : Assignment) (s : Substitution) : Prop :=
  (∀ id t, s.lookupType id = some t → ∀ k, A.type ⟨id, k⟩ = t.value A) ∧
    ∀ id r, s.lookupRow id = some r → A.row id = (r.value A).tail

theorem Models.after_eq (hm : A.Models s) {f : Ty → Ty} {g : Row → Row}
    (hf : ∀ id t, s.lookupType id = some t → (f t).value A = t.value A)
    (hg : ∀ id r, s.lookupRow id = some r → (g r).value A = r.value A) :
    A.after (s.assigned f) (s.assignedRow g) = A := by
  have htype : ∀ v, (A.after (s.assigned f) (s.assignedRow g)).type v = A.type v := by
    intro v
    cases ht : s.lookupType v.id with
    | none => simp [after, Substitution.assigned, ht]
    | some t => simp [after, Substitution.assigned, ht, hf _ t ht, hm.1 v.id t ht v.kind]
  have hrow : ∀ id, (A.after (s.assigned f) (s.assignedRow g)).row id = A.row id := by
    intro id
    cases hr : s.lookupRow id with
    | none => simp [after, Substitution.assignedRow, hr]
    | some r => simp [after, Substitution.assignedRow, hr, hg _ r hr, hm.2 id r hr]
  cases A
  simp only [after] at htype hrow ⊢
  congr
  · exact funext htype
  · exact funext hrow

-- Reading through any number of bindings keeps the meaning, cycles or not.
theorem Models.chase_both (hm : A.Models s) (hA : A.Ordered) (hs : s.Ordered) (n : Nat) :
    (∀ t : Ty, t.Ordered → (s.chase n t).value A = t.value A) ∧
      ∀ r : Row, r.Ordered → (s.chaseRow n r).value A = r.value A := by
  induction n with
  | zero => exact ⟨fun _ _ => rfl, fun _ _ => rfl⟩
  | succ n ih =>
      have hρ : ∀ id x, s.assignedRow (s.chaseRow n) id = some x → OrderedMap.Ascending x.fields := by
        intro id x hx
        obtain ⟨r, hr, rfl⟩ := Option.map_eq_some_iff.mp hx
        exact (Row.ordered_iff.mp ((Substitution.All.chase_both substitutive_ordered hs n).2 r (hs.2 id r hr))).1
      have after_eq := hm.after_eq (fun id t ht => ih.1 t (hs.1 id t ht)) fun id r hr => ih.2 r (hs.2 id r hr)
      constructor
      · intro t ht
        rw [Substitution.chase_succ, (Ty.value_subst_both hA hρ).1 t ht, after_eq]
      · intro r hr
        rw [Substitution.chaseRow_succ, (Ty.value_subst_both hA hρ).2 r hr, after_eq]

theorem Models.apply (hm : A.Models s) (hA : A.Ordered) (hs : s.Ordered) {t : Ty} (ht : t.Ordered) :
    (s.apply t).value A = t.value A :=
  (hm.chase_both hA hs _).1 t ht

theorem Models.applyRow (hm : A.Models s) (hA : A.Ordered) (hs : s.Ordered) {r : Row} (hr : r.Ordered) :
    (s.applyRow r).value A = r.value A :=
  (hm.chase_both hA hs _).2 r hr

end Assignment

namespace Substitution

variable {s : Substitution}

def variableRow (id : RowVarId) : Row :=
  ⟨.recordRow, [], some id⟩

def assignment (s : Substitution) : Assignment where
  type v := (s.apply (.var v)).explicit
  row id := (s.applyRow (variableRow id)).explicit.tail

theorem assignment_type (v : TypeVar) : s.assignment.type v = (s.apply (.var v)).explicit := rfl

theorem assignment_ordered (hs : s.Ordered) : s.assignment.Ordered := by
  intro id
  have hrow : (variableRow id).Ordered := Row.ordered_iff.mpr ⟨List.Pairwise.nil, by simp [variableRow]⟩
  exact Row.ascending_value (Row.ordered_iff.mp (hs.applyRow hrow)).1

theorem identity_ordered : Assignment.identity.Ordered :=
  fun _ => List.Pairwise.nil

theorem Acyclic.apply_variableRow (h : s.Acyclic) (hs : s.Ordered) {id : RowVarId} {r : Row}
    (hr : s.lookupRow id = some r) : (s.applyRow (variableRow id)).explicit.tail = (s.applyRow r).explicit.tail := by
  have hasc : OrderedMap.Ascending (s.applyRow r).fields := (Row.ordered_iff.mp (hs.applyRow (hs.2 id r hr))).1
  have happly : s.applyRow (variableRow id) = ⟨.recordRow, (s.applyRow r).fields, (s.applyRow r).rest⟩ := by
    have htail : s.assignedRow s.applyRow id = some (s.applyRow r) := by simp [assignedRow, hr]
    rw [h.applyRow_eq, variableRow, Ty.substRow_bound htail]
    simp only [OrderedMap.mapValues, List.map_nil, OrderedMap.nil_merge hasc]
  rw [happly]
  cases hrest : (s.applyRow r) with
  | mk k fs rest => cases rest <;> simp [Row.explicit, Row.tail]

theorem Acyclic.assignment_eq (h : s.Acyclic) (hs : s.Ordered) :
    Assignment.identity.after (s.assigned s.apply) (s.assignedRow s.applyRow) = s.assignment := by
  have htype : ∀ v, (Assignment.identity.after (s.assigned s.apply) (s.assignedRow s.applyRow)).type v =
      s.assignment.type v := by
    intro v
    cases ht : s.lookupType v.id with
    | none =>
        rw [assignment_type, h.apply_free ht]
        simp [Assignment.after, assigned, ht, Ty.explicit]
    | some t =>
        rw [assignment_type, h.apply_bound ht]
        simp [Assignment.after, assigned, ht, Ty.explicit]
  have hrow : ∀ id, (Assignment.identity.after (s.assigned s.apply) (s.assignedRow s.applyRow)).row id =
      s.assignment.row id := by
    intro id
    cases hr : s.lookupRow id with
    | none =>
        have hfree : s.applyRow (variableRow id) = variableRow id := by
          rw [h.applyRow_eq, variableRow, Ty.substRow_free (by simp [assignedRow, hr])]
          rfl
        simp only [assignment, hfree]
        simp [Assignment.after, assignedRow, hr, Row.explicit, variableRow, Assignment.identity, Row.tail]
        rfl
    | some r =>
        simp only [assignment, h.apply_variableRow hs hr]
        simp [Assignment.after, assignedRow, hr, Row.explicit]
  cases hA : s.assignment
  rw [hA] at htype hrow
  simp only [Assignment.after] at htype hrow ⊢
  congr
  · exact funext htype
  · exact funext hrow

theorem Acyclic.value_assignment (h : s.Acyclic) (hs : s.Ordered) {t : Ty} (ht : t.Ordered) :
    t.value s.assignment = (s.apply t).explicit := by
  have hρ : ∀ id x, s.assignedRow s.applyRow id = some x → OrderedMap.Ascending x.fields := by
    intro id x hx
    obtain ⟨r, hr, rfl⟩ := Option.map_eq_some_iff.mp hx
    exact (Row.ordered_iff.mp (hs.applyRow (hs.2 id r hr))).1
  rw [h.apply_eq, Ty.explicit, (Ty.value_subst_both identity_ordered hρ).1 t ht, h.assignment_eq hs]

theorem Acyclic.value_assignment_row (h : s.Acyclic) (hs : s.Ordered) {r : Row} (hr : r.Ordered) :
    r.value s.assignment = (s.applyRow r).explicit := by
  have hρ : ∀ id x, s.assignedRow s.applyRow id = some x → OrderedMap.Ascending x.fields := by
    intro id x hx
    obtain ⟨r, hr, rfl⟩ := Option.map_eq_some_iff.mp hx
    exact (Row.ordered_iff.mp (hs.applyRow (hs.2 id r hr))).1
  rw [h.applyRow_eq, Row.explicit, (Ty.value_subst_both identity_ordered hρ).2 r hr, h.assignment_eq hs]

theorem Acyclic.models (h : s.Acyclic) (hs : s.Ordered) : s.assignment.Models s := by
  constructor
  · intro id t ht k
    rw [h.value_assignment hs (hs.1 id t ht), assignment_type, h.apply_bound ht]
  · intro id r hr
    rw [h.value_assignment_row hs (hs.2 id r hr)]
    exact h.apply_variableRow hs hr

end Substitution

end RowTyping
