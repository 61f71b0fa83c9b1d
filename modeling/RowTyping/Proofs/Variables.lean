import RowTyping.Substitution
import RowTyping.Proofs.Merge
import RowTyping.Proofs.Occurrences

namespace RowTyping

inductive Var where
  | type (id : TypeVarId)
  | row (id : RowVarId)
  deriving DecidableEq, Repr

def Occurrence.var : Occurrence → Var
  | .type v => .type v.id
  | .tail r _ => .row r

namespace Ty

theorem induct_rows {P : Ty → Prop} {Q : Row → Prop} (var : ∀ v, P (.var v)) (con : ∀ name, P (.con name))
    (app : ∀ h as, P h → (∀ a ∈ as, P a) → P (.app h as)) (list : ∀ a, P a → P (.list a))
    (tuple : ∀ as, (∀ a ∈ as, P a) → P (.tuple as))
    (fn : ∀ ps e r, (∀ p ∈ ps, P p) → (∀ row ∈ e, Q row) → P r → P (.fn ps e r))
    (record : ∀ r, Q r → P (.record r))
    (row : ∀ k fs rest, (∀ f ∈ fs, P f.2) → Q ⟨k, fs, rest⟩) : (∀ t, P t) ∧ ∀ r, Q r := by
  have base : ∀ t, P t := fun t =>
    @Ty.rec P Q (fun ts => ∀ t ∈ ts, P t) (fun e => ∀ r ∈ e, Q r) (fun fs => ∀ f ∈ fs, P f.2) (fun f => P f.2)
      var con app list tuple fn record (fun k fs rest ih => row k fs rest ih) (by simp)
      (fun t ts ht hts => List.forall_mem_cons.mpr ⟨ht, hts⟩) (by simp) (fun r hr => by simpa using hr) (by simp)
      (fun f fs hf hfs => List.forall_mem_cons.mpr ⟨hf, hfs⟩) (fun _ _ ht => ht) t
  exact ⟨base, fun ⟨k, fs, rest⟩ => row k fs rest fun f _ => base f.2⟩

def vars (t : Ty) : List Var :=
  t.occurrences.map Occurrence.var

mutual

def rows : Ty → List Row
  | .var _ => []
  | .con _ => []
  | .app h as => h.rows ++ rowsAll as
  | .list a => a.rows
  | .tuple as => rowsAll as
  | .fn ps e r => rowsAll ps ++ rowsEffects e ++ r.rows
  | .record r => rowsRow r
termination_by structural t => t

def rowsAll : List Ty → List Row
  | [] => []
  | t :: ts => t.rows ++ rowsAll ts
termination_by structural ts => ts

def rowsEffects : Option Row → List Row
  | none => []
  | some r => rowsRow r
termination_by structural e => e

def rowsRow : Row → List Row
  | ⟨k, fs, rest⟩ => ⟨k, fs, rest⟩ :: rowsFields fs
termination_by structural r => r

def rowsFields : List (Label × Ty) → List Row
  | [] => []
  | (_, t) :: fs => t.rows ++ rowsFields fs
termination_by structural fs => fs

end

theorem mem_rowsAll {ts : List Ty} {r : Row} : r ∈ rowsAll ts ↔ ∃ t ∈ ts, r ∈ t.rows := by
  induction ts with
  | nil => exact iff_of_false List.not_mem_nil fun ⟨_, ht, _⟩ => List.not_mem_nil ht
  | cons t ts ih =>
      change r ∈ t.rows ++ rowsAll ts ↔ _
      simp only [List.mem_append, ih, List.mem_cons, exists_eq_or_imp]

theorem mem_rowsFields {fs : List (Label × Ty)} {r : Row} : r ∈ rowsFields fs ↔ ∃ f ∈ fs, r ∈ f.2.rows := by
  induction fs with
  | nil => exact iff_of_false List.not_mem_nil fun ⟨_, hf, _⟩ => List.not_mem_nil hf
  | cons f fs ih =>
      change r ∈ f.2.rows ++ rowsFields fs ↔ _
      simp only [List.mem_append, ih, List.mem_cons, exists_eq_or_imp]

theorem mem_occurrencesAll {ts : List Ty} {o : Occurrence} :
    o ∈ occurrencesAll ts ↔ ∃ t ∈ ts, o ∈ t.occurrences := by
  rw [occurrencesAll_eq, List.mem_flatMap]

theorem mem_vars_iff {t : Ty} {w : Var} : w ∈ t.vars ↔ ∃ o ∈ t.occurrences, o.var = w :=
  List.mem_map

end Ty

namespace Row

def vars (r : Row) : List Var :=
  r.occurrences.map Occurrence.var

def rows (r : Row) : List Row :=
  Ty.rowsRow r

theorem mem_occurrences {k : Kind} {fs : List (Label × Ty)} {rest : Option RowVarId} {o : Occurrence} :
    o ∈ (Row.mk k fs rest).occurrences ↔ (∃ f ∈ fs, o ∈ f.2.occurrences) ∨ ∃ r ∈ rest, o = .tail r k := by
  change o ∈ Ty.occurrencesFields fs ++ (rest.map (Occurrence.tail · k)).toList ↔ _
  rw [List.mem_append, Ty.occurrencesFields_eq, List.mem_flatMap]
  cases rest <;> simp

theorem mem_vars_iff {r : Row} {w : Var} : w ∈ r.vars ↔ ∃ o ∈ r.occurrences, o.var = w :=
  List.mem_map

theorem mem_vars {k : Kind} {fs : List (Label × Ty)} {rest : Option RowVarId} {w : Var} :
    w ∈ (Row.mk k fs rest).vars ↔ (∃ f ∈ fs, w ∈ f.2.vars) ∨ ∃ r ∈ rest, w = .row r := by
  simp only [mem_vars_iff, mem_occurrences, Ty.mem_vars_iff]
  constructor
  · rintro ⟨o, ⟨f, hf, ho⟩ | ⟨r, hr, rfl⟩, rfl⟩
    · exact .inl ⟨f, hf, o, ho, rfl⟩
    · exact .inr ⟨r, hr, rfl⟩
  · rintro (⟨f, hf, o, ho, rfl⟩ | ⟨r, hr, rfl⟩)
    · exact ⟨o, .inl ⟨f, hf, ho⟩, rfl⟩
    · exact ⟨.tail r k, .inr ⟨r, hr, rfl⟩, rfl⟩

theorem mem_rows {k : Kind} {fs : List (Label × Ty)} {rest : Option RowVarId} {r : Row} :
    r ∈ (Row.mk k fs rest).rows ↔ r = ⟨k, fs, rest⟩ ∨ ∃ f ∈ fs, r ∈ f.2.rows := by
  change r ∈ ⟨k, fs, rest⟩ :: Ty.rowsFields fs ↔ _
  rw [List.mem_cons, Ty.mem_rowsFields]

end Row

namespace Ty

section Occurrences

variable {o : Occurrence}

theorem mem_occurrences_var {v : TypeVar} : o ∈ (Ty.var v).occurrences ↔ o = .type v :=
  List.mem_singleton

theorem mem_occurrences_app {h : Ty} {as : List Ty} :
    o ∈ (Ty.app h as).occurrences ↔ o ∈ h.occurrences ∨ ∃ a ∈ as, o ∈ a.occurrences := by
  change o ∈ h.occurrences ++ occurrencesAll as ↔ _
  rw [List.mem_append, mem_occurrencesAll]

theorem mem_occurrences_list {a : Ty} : o ∈ (Ty.list a).occurrences ↔ o ∈ a.occurrences := Iff.rfl

theorem mem_occurrences_tuple {as : List Ty} : o ∈ (Ty.tuple as).occurrences ↔ ∃ a ∈ as, o ∈ a.occurrences :=
  mem_occurrencesAll

theorem mem_occurrences_fn {ps : List Ty} {e : Effects} {r : Ty} :
    o ∈ (Ty.fn ps e r).occurrences ↔
      (∃ p ∈ ps, o ∈ p.occurrences) ∨ (∃ row ∈ e, o ∈ row.occurrences) ∨ o ∈ r.occurrences := by
  change o ∈ occurrencesAll ps ++ occurrencesEffects e ++ r.occurrences ↔ _
  rw [List.mem_append, List.mem_append, mem_occurrencesAll, or_assoc]
  cases e with
  | none => simp [occurrencesEffects]
  | some row => simp [occurrencesEffects, Row.occurrences]

theorem mem_occurrences_record {r : Row} : o ∈ (Ty.record r).occurrences ↔ o ∈ r.occurrences := Iff.rfl

end Occurrences

section Variables

variable {w : Var}

@[simp]
theorem mem_vars_var {v : TypeVar} : w ∈ (Ty.var v).vars ↔ w = .type v.id :=
  List.mem_singleton

@[simp]
theorem mem_vars_con {name : String} : ¬ w ∈ (Ty.con name).vars :=
  List.not_mem_nil

@[simp]
theorem mem_vars_app {h : Ty} {as : List Ty} : w ∈ (Ty.app h as).vars ↔ w ∈ h.vars ∨ ∃ a ∈ as, w ∈ a.vars := by
  simp only [mem_vars_iff, mem_occurrences_app]
  grind

@[simp]
theorem mem_vars_list {a : Ty} : w ∈ (Ty.list a).vars ↔ w ∈ a.vars := Iff.rfl

@[simp]
theorem mem_vars_tuple {as : List Ty} : w ∈ (Ty.tuple as).vars ↔ ∃ a ∈ as, w ∈ a.vars := by
  simp only [mem_vars_iff, mem_occurrences_tuple]
  grind

@[simp]
theorem mem_vars_fn {ps : List Ty} {e : Effects} {r : Ty} :
    w ∈ (Ty.fn ps e r).vars ↔ (∃ p ∈ ps, w ∈ p.vars) ∨ (∃ row ∈ e, w ∈ row.vars) ∨ w ∈ r.vars := by
  simp only [mem_vars_iff, Row.mem_vars_iff, mem_occurrences_fn]
  grind

@[simp]
theorem mem_vars_record {r : Row} : w ∈ (Ty.record r).vars ↔ w ∈ r.vars := Iff.rfl

end Variables

section Rows

variable {row : Row}

@[simp]
theorem mem_rows_var {v : TypeVar} : ¬ row ∈ (Ty.var v).rows :=
  List.not_mem_nil

@[simp]
theorem mem_rows_con {name : String} : ¬ row ∈ (Ty.con name).rows :=
  List.not_mem_nil

@[simp]
theorem mem_rows_app {h : Ty} {as : List Ty} : row ∈ (Ty.app h as).rows ↔ row ∈ h.rows ∨ ∃ a ∈ as, row ∈ a.rows := by
  change row ∈ h.rows ++ rowsAll as ↔ _
  rw [List.mem_append, mem_rowsAll]

@[simp]
theorem mem_rows_list {a : Ty} : row ∈ (Ty.list a).rows ↔ row ∈ a.rows := Iff.rfl

@[simp]
theorem mem_rows_tuple {as : List Ty} : row ∈ (Ty.tuple as).rows ↔ ∃ a ∈ as, row ∈ a.rows :=
  mem_rowsAll

@[simp]
theorem mem_rows_fn {ps : List Ty} {e : Effects} {r : Ty} :
    row ∈ (Ty.fn ps e r).rows ↔ (∃ p ∈ ps, row ∈ p.rows) ∨ (∃ r' ∈ e, row ∈ r'.rows) ∨ row ∈ r.rows := by
  change row ∈ rowsAll ps ++ rowsEffects e ++ r.rows ↔ _
  rw [List.mem_append, List.mem_append, mem_rowsAll, or_assoc]
  cases e with
  | none => simp [rowsEffects]
  | some r' => simp [rowsEffects, Row.rows]

@[simp]
theorem mem_rows_record {r : Row} : row ∈ (Ty.record r).rows ↔ row ∈ r.rows := Iff.rfl

end Rows

section Heights

theorem height_pos (t : Ty) : 0 < t.height := by
  cases t <;> exact Nat.succ_pos _

theorem height_le_heightAll {ts : List Ty} {t : Ty} (h : t ∈ ts) : t.height ≤ heightAll ts := by
  induction ts with
  | nil => cases h
  | cons u ts ih =>
      change t.height ≤ max u.height (heightAll ts)
      rcases List.mem_cons.mp h with rfl | h
      · exact Nat.le_max_left _ _
      · exact Nat.le_trans (ih h) (Nat.le_max_right _ _)

theorem height_le_heightFields {fs : List (Label × Ty)} {f : Label × Ty} (h : f ∈ fs) : f.2.height ≤ heightFields fs := by
  induction fs with
  | nil => cases h
  | cons g fs ih =>
      change f.2.height ≤ max g.2.height (heightFields fs)
      rcases List.mem_cons.mp h with rfl | h
      · exact Nat.le_max_left _ _
      · exact Nat.le_trans (ih h) (Nat.le_max_right _ _)

theorem heightAll_le_iff {ts : List Ty} {n : Nat} : heightAll ts ≤ n ↔ ∀ t ∈ ts, t.height ≤ n := by
  constructor
  · exact fun h t ht => Nat.le_trans (height_le_heightAll ht) h
  · intro h
    induction ts with
    | nil => exact Nat.zero_le n
    | cons t ts ih =>
        obtain ⟨ht, hts⟩ := List.forall_mem_cons.mp h
        exact Nat.max_le.mpr ⟨ht, ih hts⟩

theorem heightFields_le_iff {fs : List (Label × Ty)} {n : Nat} : heightFields fs ≤ n ↔ ∀ f ∈ fs, f.2.height ≤ n := by
  constructor
  · exact fun h f hf => Nat.le_trans (height_le_heightFields hf) h
  · intro h
    induction fs with
    | nil => exact Nat.zero_le n
    | cons f fs ih =>
        obtain ⟨hf, hfs⟩ := List.forall_mem_cons.mp h
        exact Nat.max_le.mpr ⟨hf, ih hfs⟩

end Heights

end Ty

namespace Row

theorem vars_of_mem_rows {r : Row} : (∀ t : Ty, r ∈ t.rows → ∀ v ∈ r.vars, v ∈ t.vars) ∧
    ∀ r' : Row, r ∈ r'.rows → ∀ v ∈ r.vars, v ∈ r'.vars := by
  apply Ty.induct_rows
  case var => exact fun _ h => absurd h Ty.mem_rows_var
  case con => exact fun _ h => absurd h Ty.mem_rows_con
  case app =>
    intro f as hf has h v hv
    rcases Ty.mem_rows_app.mp h with h | ⟨a, ha, h⟩
    · exact Ty.mem_vars_app.mpr (.inl (hf h v hv))
    · exact Ty.mem_vars_app.mpr (.inr ⟨a, ha, has a ha h v hv⟩)
  case list => exact fun _ ha => ha
  case tuple =>
    intro as has h v hv
    obtain ⟨a, ha, h⟩ := Ty.mem_rows_tuple.mp h
    exact Ty.mem_vars_tuple.mpr ⟨a, ha, has a ha h v hv⟩
  case fn =>
    intro ps e t hps he ht h v hv
    rcases Ty.mem_rows_fn.mp h with ⟨p, hp, h⟩ | ⟨row, hrow, h⟩ | h
    · exact Ty.mem_vars_fn.mpr (.inl ⟨p, hp, hps p hp h v hv⟩)
    · exact Ty.mem_vars_fn.mpr (.inr (.inl ⟨row, hrow, he row hrow h v hv⟩))
    · exact Ty.mem_vars_fn.mpr (.inr (.inr (ht h v hv)))
  case record => exact fun _ hr => hr
  case row =>
    intro k fs rest hfs h v hv
    rcases mem_rows.mp h with rfl | ⟨f, hf, h⟩
    · exact hv
    · exact mem_vars.mpr (.inl ⟨f, hf, hfs f hf h v hv⟩)

theorem rows_of_mem_rows {r row : Row} (hrow : row ∈ r.rows) : (∀ t : Ty, r ∈ t.rows → row ∈ t.rows) ∧
    ∀ r' : Row, r ∈ r'.rows → row ∈ r'.rows := by
  apply Ty.induct_rows
  case var => exact fun _ h => absurd h Ty.mem_rows_var
  case con => exact fun _ h => absurd h Ty.mem_rows_con
  case app =>
    intro f as hf has h
    rcases Ty.mem_rows_app.mp h with h | ⟨a, ha, h⟩
    · exact Ty.mem_rows_app.mpr (.inl (hf h))
    · exact Ty.mem_rows_app.mpr (.inr ⟨a, ha, has a ha h⟩)
  case list => exact fun _ ha => ha
  case tuple =>
    intro as has h
    obtain ⟨a, ha, h⟩ := Ty.mem_rows_tuple.mp h
    exact Ty.mem_rows_tuple.mpr ⟨a, ha, has a ha h⟩
  case fn =>
    intro ps e t hps he ht h
    rcases Ty.mem_rows_fn.mp h with ⟨p, hp, h⟩ | ⟨tail, htail, h⟩ | h
    · exact Ty.mem_rows_fn.mpr (.inl ⟨p, hp, hps p hp h⟩)
    · exact Ty.mem_rows_fn.mpr (.inr (.inl ⟨tail, htail, he tail htail h⟩))
    · exact Ty.mem_rows_fn.mpr (.inr (.inr (ht h)))
  case record => exact fun _ hr => hr
  case row =>
    intro k fs rest hfs h
    rcases mem_rows.mp h with rfl | ⟨f, hf, h⟩
    · exact hrow
    · exact mem_rows.mpr (.inr ⟨f, hf, hfs f hf h⟩)

end Row

section Reading

theorem Occurrence.mem_types_iff {os : List Occurrence} {id : TypeVarId} :
    id ∈ os.filterMap (fun o => o.type?.map TypeVar.id) ↔ Var.type id ∈ os.map Occurrence.var := by
  simp only [List.mem_filterMap, List.mem_map]
  constructor
  · rintro ⟨o, ho, h⟩
    cases o with
    | type v => exact ⟨_, ho, congrArg Var.type (Option.some.inj h)⟩
    | tail => cases h
  · rintro ⟨o, ho, h⟩
    cases o with
    | type v => exact ⟨_, ho, congrArg some (Var.type.inj h)⟩
    | tail => cases h

theorem Occurrence.mem_tails_iff {os : List Occurrence} {id : RowVarId} :
    id ∈ os.filterMap (fun o => o.tail?.map Prod.fst) ↔ Var.row id ∈ os.map Occurrence.var := by
  simp only [List.mem_filterMap, List.mem_map]
  constructor
  · rintro ⟨o, ho, h⟩
    cases o with
    | type v => cases h
    | tail r k => exact ⟨_, ho, congrArg Var.row (Option.some.inj h)⟩
  · rintro ⟨o, ho, h⟩
    cases o with
    | type v => cases h
    | tail r k => exact ⟨_, ho, congrArg some (Var.row.inj h)⟩

theorem Ty.mem_typeVars_iff {t : Ty} {id : TypeVarId} : id ∈ t.typeVars ↔ Var.type id ∈ t.vars := by
  rw [typeVars_eq, OrderedSet.mem_ofList, Occurrence.mem_types_iff, vars]

theorem Ty.mem_rowVars_iff {t : Ty} {id : RowVarId} : id ∈ t.rowVars ↔ Var.row id ∈ t.vars := by
  rw [rowVars_eq, OrderedSet.mem_ofList, Occurrence.mem_tails_iff, vars]

theorem Row.mem_typeVars_iff {r : Row} {id : TypeVarId} : id ∈ r.typeVars ↔ Var.type id ∈ r.vars := by
  rw [typeVars_eq, OrderedSet.mem_ofList, Occurrence.mem_types_iff, vars]

theorem Row.mem_rowVars_iff {r : Row} {id : RowVarId} : id ∈ r.rowVars ↔ Var.row id ∈ r.vars := by
  rw [rowVars_eq, OrderedSet.mem_ofList, Occurrence.mem_tails_iff, vars]

theorem Ty.isGround_iff {t : Ty} : t.isGround = true ↔ ∀ v, v ∉ t.vars := by
  simp only [isGround, Bool.and_eq_true, List.isEmpty_iff, List.eq_nil_iff_forall_not_mem, mem_typeVars_iff, mem_rowVars_iff]
  constructor
  · rintro ⟨htypes, hrows⟩ (id | id)
    · exact htypes id
    · exact hrows id
  · exact fun h => ⟨fun id => h (.type id), fun id => h (.row id)⟩

end Reading

theorem Row.height_eq (r : Row) : r.height = Ty.heightFields r.fields + 1 := by
  cases r
  rfl

namespace Scheme

def vars (scheme : Scheme) : List Var :=
  scheme.ty.vars ++ scheme.predicates.flatMap fun p => p.ty.vars

def quantified (scheme : Scheme) : List Var :=
  scheme.typeVars.map (fun v => .type v.id) ++ scheme.rowVars.map .row

end Scheme

end RowTyping
