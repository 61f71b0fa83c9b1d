import RowTyping.Proofs.Assignment
/-!
What stands before a tail. A layout gives the tails of records, or of all rows, their fields: each row with that tail
has them, up to the meaning of their types, and a binding of the tail brings none of their labels again. Records that
are not rows are in positional form.
-/

namespace RowTyping

abbrev Fields := Label → Option Ty

variable {M M' : Assignment → Prop}

abbrev Substitution.Admits (s : Substitution) (A : Assignment) : Prop :=
  A.Ordered ∧ A.Models s

namespace Fields

def empty : Fields :=
  fun _ => none

def join (before : Fields) (r : Row) : Fields :=
  fun l => (r.get? l).or (before l)

structure Same (M : Assignment → Prop) (f g : Fields) : Prop where
  labels : ∀ l, (f l).isSome = (g l).isSome
  values : ∀ A, M A → ∀ l, (f l).map (Ty.value A) = (g l).map (Ty.value A)

variable {f g h : Fields}

theorem Same.refl (f : Fields) : Same M f f :=
  ⟨fun _ => rfl, fun _ _ _ => rfl⟩

theorem Same.symm (hfg : Same M f g) : Same M g f :=
  ⟨fun l => (hfg.labels l).symm, fun A hA l => (hfg.values A hA l).symm⟩

theorem Same.trans (hfg : Same M f g) (hgh : Same M g h) : Same M f h :=
  ⟨fun l => (hfg.labels l).trans (hgh.labels l), fun A hA l => (hfg.values A hA l).trans (hgh.values A hA l)⟩

theorem Same.mono (hfg : Same M f g) (hM : ∀ A, M' A → M A) : Same M' f g :=
  ⟨hfg.labels, fun A hA => hfg.values A (hM A hA)⟩

theorem Same.join (hfg : Same M f g) (r : Row) : Same M (f.join r) (g.join r) := by
  constructor
  · intro l
    have := hfg.labels l
    cases hr : r.get? l <;> simp [Fields.join, hr, this]
  · intro A hA l
    have := hfg.values A hA l
    cases hr : r.get? l <;> simp [Fields.join, hr, this]

theorem Same.eq_none_iff (hfg : Same M f g) (l : Label) : f l = none ↔ g l = none := by
  have := hfg.labels l
  cases hf : f l <;> cases hg : g l <;> simp_all

theorem join_eq_none {r : Row} {l : Label} : f.join r l = none ↔ l ∉ r.labels ∧ f l = none := by
  rw [join, Option.or_eq_none_iff, Row.labels, Row.get?, OrderedMap.find?_eq_none_iff]

theorem join_of_empty {r : Row} (h : r.fields = []) : f.join r = f := by
  funext l
  rw [join, Row.get?, h, OrderedMap.find?_nil, Option.none_or]

end Fields

structure Layout where
  positional : Bool
  tracks : Kind → Bool
  tracks_records : tracks .recordRow = true
  fields : RowVarId → Option Fields
  held : Ty → Prop
  held_subst : ∀ {t σ ρ}, held t → held (Ty.subst σ ρ t)

namespace Row

inductive Conforms (φ : Layout) (M : Assignment → Prop) : Option Fields → Row → Prop
  | untracked {r : Row} : φ.tracks r.kind = false → (∀ f ∈ r.fields, φ.held f.2) →
      (∀ v, r.rest = some v → φ.fields v = none) → Conforms φ M none r
  | tracked {before : Fields} {r : Row} : φ.tracks r.kind = true → (∀ l ∈ r.labels, before l = none) →
      (∀ v, r.rest = some v → ∃ fs, φ.fields v = some fs ∧ (before.join r).Same M fs) → Conforms φ M (some before) r

def start (φ : Layout) (r : Row) : Option Fields :=
  if φ.tracks r.kind then some .empty else none

end Row

def Ty.Conforms (φ : Layout) (M : Assignment → Prop) (t : Ty) : Prop :=
  ∀ r ∈ t.rows, r.Conforms φ M (r.start φ)

def Row.ConformsIn (φ : Layout) (M : Assignment → Prop) (before : Option Fields) (r : Row) : Prop :=
  r.Conforms φ M before ∧ ∀ f ∈ r.fields, f.2.Conforms φ M

def Substitution.Conforms (φ : Layout) (M : Assignment → Prop) (s : Substitution) : Prop :=
  (∀ id t, s.lookupType id = some t → t.Conforms φ M) ∧
    ∀ id r, s.lookupRow id = some r → r.ConformsIn φ M (φ.fields id)

variable {φ : Layout}

namespace Row

variable {before : Option Fields} {r : Row}

theorem Conforms.mono (h : r.Conforms φ M before) (hM : ∀ A, M' A → M A) : r.Conforms φ M' before := by
  cases h with
  | untracked hkind hheld hrest => exact .untracked hkind hheld hrest
  | tracked hkind hlabels hrest =>
      refine .tracked hkind hlabels fun v hv => ?_
      obtain ⟨fs, hfs, hsame⟩ := hrest v hv
      exact ⟨fs, hfs, hsame.mono hM⟩

theorem conforms_start_iff : (∀ r' ∈ r.rows, r'.Conforms φ M (r'.start φ)) ↔ r.ConformsIn φ M (r.start φ) := by
  obtain ⟨k, fs, rest⟩ := r
  constructor
  · intro h
    exact ⟨h _ (mem_rows.mpr (.inl rfl)), fun f hf r' hr' => h r' (mem_rows.mpr (.inr ⟨f, hf, hr'⟩))⟩
  · rintro ⟨hself, h⟩ r' hr'
    rcases mem_rows.mp hr' with rfl | ⟨f, hf, hr'⟩
    · exact hself
    · exact h f hf r' hr'

theorem ConformsIn.mono (h : r.ConformsIn φ M before) (hM : ∀ A, M' A → M A) : r.ConformsIn φ M' before :=
  ⟨h.1.mono hM, fun f hf r' hr' => (h.2 f hf r' hr').mono hM⟩

end Row

theorem Ty.Conforms.mono {t : Ty} (h : t.Conforms φ M) (hM : ∀ A, M' A → M A) : t.Conforms φ M' :=
  fun r hr => (h r hr).mono hM

theorem Substitution.Conforms.mono {s : Substitution} (h : s.Conforms φ M) (hM : ∀ A, M' A → M A) : s.Conforms φ M' :=
  ⟨fun id t ht => (h.1 id t ht).mono hM, fun id r hr => (h.2 id r hr).mono hM⟩

section Replacing

variable {σ : TypeVarId → Option Ty} {ρ : RowVarId → Option Row}

theorem Row.get?_substRow {k : Kind} {fs : List (Label × Ty)} {rest : Option RowVarId}
    (hρ : ∀ id x, ρ id = some x → OrderedMap.Ascending x.fields) (l : Label) :
    (Ty.substRow σ ρ ⟨k, fs, rest⟩).get? l =
      ((rest.bind ρ).bind (·.get? l)).or ((OrderedMap.find? fs l).map (Ty.subst σ ρ)) := by
  cases htail : rest.bind ρ with
  | none => rw [Ty.substRow_none_tail htail, get?, OrderedMap.find?_mapValues, Option.bind_none, Option.none_or]
  | some x =>
      obtain ⟨id, rfl, hx⟩ := Option.bind_eq_some_iff.mp htail
      rw [Ty.substRow_some_tail htail, get?, OrderedMap.find?_merge _ (hρ id x hx), OrderedMap.find?_mapValues,
        Option.bind_some, get?]

structure Keeps (φ : Layout) (M : Assignment → Prop) (σ : TypeVarId → Option Ty) (ρ : RowVarId → Option Row) : Prop where
  types : ∀ id x, σ id = some x → x.Conforms φ M
  rows : ∀ id x, ρ id = some x → x.ConformsIn φ M (φ.fields id)
  ascending : ∀ id x, ρ id = some x → OrderedMap.Ascending x.fields
  value : ∀ A, M A → ∀ t : Ty, t.Ordered → (t.subst σ ρ).value A = t.value A

variable (hkeeps : Keeps φ M σ ρ)

include hkeeps

theorem Fields.map_value_subst {fs : OrderedMap Label Ty} (hfs : ∀ f ∈ fs, f.2.Ordered) {A : Assignment} (hA : M A)
    (l : Label) : ((fs.find? l).map (Ty.subst σ ρ)).map (Ty.value A) = (fs.find? l).map (Ty.value A) := by
  cases hl : fs.find? l with
  | none => rfl
  | some t => exact congrArg some (hkeeps.value A hA t (hfs _ (OrderedMap.mem_of_find? hl)))

theorem Fields.same_substRow {r : Row} (hr : r.Ordered) (before : Fields) :
    (before.join (Ty.substRow σ ρ r)).Same M ((r.rest.bind ρ).elim (before.join r) (before.join r).join) := by
  obtain ⟨k, fs, rest⟩ := r
  have hfs := (Row.ordered_iff.mp hr).2
  constructor
  · intro l
    rw [Fields.join, Row.get?_substRow hkeeps.ascending]
    cases rest.bind ρ with
    | none => simp [Fields.join, Row.get?]
    | some x => simp [Fields.join, Row.get?, Bool.or_assoc]
  · intro A hA l
    have hvalue := map_value_subst hkeeps hfs hA l
    rw [Fields.join, Row.get?_substRow hkeeps.ascending, Option.map_or, Option.map_or, hvalue]
    cases rest.bind ρ with
    | none => simp [Fields.join, Row.get?, Option.map_or]
    | some x => simp [Fields.join, Row.get?, Option.map_or, Option.or_assoc]

omit hkeeps in
theorem Row.mem_fields_substRow {r : Row} {f : Label × Ty} (h : f ∈ (Ty.substRow σ ρ r).fields) :
    (∃ g ∈ r.fields, (g.1, g.2.subst σ ρ) = f) ∨ ∃ x, r.rest.bind ρ = some x ∧ f ∈ x.fields := by
  obtain ⟨k, fs, rest⟩ := r
  cases htail : rest.bind ρ with
  | none =>
      rw [Ty.substRow_none_tail htail] at h
      exact .inl (List.mem_map.mp h)
  | some x =>
      rw [Ty.substRow_some_tail htail] at h
      exact (OrderedMap.mem_merge h).imp List.mem_map.mp fun h => ⟨x, rfl, h⟩

omit hkeeps in
theorem Row.rest_substRow (r : Row) :
    (Ty.substRow σ ρ r).rest = (r.rest.bind ρ).elim r.rest Row.rest := by
  obtain ⟨k, fs, rest⟩ := r
  cases htail : rest.bind ρ with
  | none => rw [Ty.substRow_none_tail htail, Option.elim_none]
  | some x => rw [Ty.substRow_some_tail htail, Option.elim_some]

theorem Row.Conforms.substRow {before : Option Fields} {r : Row} (h : r.Conforms φ M before) (hr : r.Ordered) :
    (Ty.substRow σ ρ r).Conforms φ M before := by
  have hkind : (Ty.substRow σ ρ r).kind = r.kind := Ty.substRow_kind r
  cases h with
  | untracked hk hheld hrest =>
      have tail : ∀ x, r.rest.bind ρ = some x → x.Conforms φ M none := by
        intro x hx
        obtain ⟨v, hv, hx⟩ := Option.bind_eq_some_iff.mp hx
        exact hrest v hv ▸ (hkeeps.rows v x hx).1
      refine .untracked (hkind ▸ hk) (fun f hf => ?_) fun v hv => ?_
      · rcases mem_fields_substRow hf with ⟨g, hg, rfl⟩ | ⟨x, hx, hf⟩
        · exact φ.held_subst (hheld g hg)
        · cases tail x hx with
          | untracked _ hheld _ => exact hheld f hf
      · rw [rest_substRow] at hv
        cases hx : r.rest.bind ρ with
        | none => exact hrest v (by simpa [hx] using hv)
        | some x =>
            cases tail x hx with
            | untracked _ _ hrest => exact hrest v (by simpa [hx] using hv)
  | @tracked before r hk hlabels hrest =>
      have tail : ∀ x, r.rest.bind ρ = some x →
          ∃ fs, (before.join r).Same M fs ∧ x.Conforms φ M (some fs) := by
        intro x hx
        obtain ⟨v, hv, hx⟩ := Option.bind_eq_some_iff.mp hx
        obtain ⟨fs, hfs, hsame⟩ := hrest v hv
        exact ⟨fs, hsame, hfs ▸ (hkeeps.rows v x hx).1⟩
      have hjoin := Fields.same_substRow hkeeps hr before
      refine .tracked (hkind ▸ hk) (fun l hl => ?_) fun v hv => ?_
      · obtain ⟨f, hf, rfl⟩ := List.mem_map.mp hl
        rcases mem_fields_substRow hf with ⟨g, hg, rfl⟩ | ⟨x, hx, hf⟩
        · exact hlabels g.1 (List.mem_map_of_mem hg)
        · obtain ⟨fs, hsame, hconf⟩ := tail x hx
          cases hconf with
          | tracked _ hlabels _ =>
              have hnone := hlabels f.1 (List.mem_map_of_mem hf)
              exact (Fields.join_eq_none.mp ((hsame.eq_none_iff f.1).mpr hnone)).2
      · rw [rest_substRow] at hv
        cases hx : r.rest.bind ρ with
        | none =>
            rw [hx, Option.elim_none] at hv hjoin
            obtain ⟨fs, hfs, hsame⟩ := hrest v hv
            exact ⟨fs, hfs, hjoin.trans hsame⟩
        | some x =>
            rw [hx, Option.elim_some] at hv hjoin
            obtain ⟨fs, hsame, hconf⟩ := tail x hx
            cases hconf with
            | tracked _ _ hrest =>
                obtain ⟨gs, hgs, hsame'⟩ := hrest v hv
                exact ⟨gs, hgs, (hjoin.trans (hsame.join x)).trans hsame'⟩

theorem conforms_imageRows {v : Var} {row : Row} (h : row ∈ Ty.imageRows σ ρ v) : row.Conforms φ M (row.start φ) := by
  cases v with
  | type id =>
      cases hx : σ id with
      | none => simp [Ty.imageRows, hx] at h
      | some x => exact hkeeps.types id x hx row (by simpa [Ty.imageRows, hx] using h)
  | row id =>
      cases hx : ρ id with
      | none => simp [Ty.imageRows, hx] at h
      | some x =>
          obtain ⟨f, hf, h⟩ := Ty.mem_rowsFields.mp (by simpa [Ty.imageRows, hx] using h)
          exact (hkeeps.rows id x hx).2 f hf row h

theorem Ty.Conforms.subst {t : Ty} (h : t.Conforms φ M) (ht : t.Ordered) : (t.subst σ ρ).Conforms φ M := by
  intro row hrow
  rcases mem_rows_subst hrow with ⟨r, hr, rfl⟩ | ⟨v, _, hv⟩
  · have hstart : (substRow σ ρ r).start φ = r.start φ := by rw [Row.start, Row.start, substRow_kind]
    rw [hstart]
    exact (h r hr).substRow hkeeps fun r' hr' => ht r' ((Row.rows_of_mem_rows hr').1 t hr)
  · exact conforms_imageRows hkeeps hv

theorem Row.ConformsIn.substRow {before : Option Fields} {r : Row} (h : r.ConformsIn φ M before) (hr : r.Ordered) :
    (Ty.substRow σ ρ r).ConformsIn φ M before := by
  refine ⟨h.1.substRow hkeeps hr, fun f hf => ?_⟩
  rcases mem_fields_substRow hf with ⟨g, hg, rfl⟩ | ⟨x, hx, hf⟩
  · exact (h.2 g hg).subst hkeeps ((ordered_iff.mp hr).2 g hg)
  · obtain ⟨v, _, hx⟩ := Option.bind_eq_some_iff.mp hx
    exact (hkeeps.rows v x hx).2 f hf

end Replacing

namespace Substitution

variable {s : Substitution}

theorem Conforms.keeps (h : s.Conforms φ M) (hM : ∀ A, M A → s.Admits A) (hs : s.Ordered) {n : Nat}
    (ih : (∀ t : Ty, t.Ordered → t.Conforms φ M → (s.chase n t).Conforms φ M) ∧
      ∀ (before : Option Fields) (r : Row), r.Ordered → r.ConformsIn φ M before → (s.chaseRow n r).ConformsIn φ M before) :
    Keeps φ M (s.assigned (s.chase n)) (s.assignedRow (s.chaseRow n)) := by
  have hordered := All.chase_both substitutive_ordered hs n
  have hasc : ∀ id x, s.assignedRow (s.chaseRow n) id = some x → OrderedMap.Ascending x.fields := by
    intro id x hx
    obtain ⟨r, hr, rfl⟩ := Option.map_eq_some_iff.mp hx
    exact (Row.ordered_iff.mp (hordered.2 r (hs.2 id r hr))).1
  refine ⟨fun id x hx => ?_, fun id x hx => ?_, hasc, fun A hA t ht => ?_⟩
  · obtain ⟨t, ht, rfl⟩ := Option.map_eq_some_iff.mp hx
    exact ih.1 t (hs.1 id t ht) (h.1 id t ht)
  · obtain ⟨r, hr, rfl⟩ := Option.map_eq_some_iff.mp hx
    exact ih.2 _ r (hs.2 id r hr) (h.2 id r hr)
  · obtain ⟨hA, hm⟩ := hM A hA
    have hvalue := hm.chase_both hA hs n
    rw [(Ty.value_subst_both hA hasc).1 t ht, hm.after_eq (fun id t ht => hvalue.1 t (hs.1 id t ht))
      fun id r hr => hvalue.2 r (hs.2 id r hr)]

theorem Conforms.chase_both (h : s.Conforms φ M) (hM : ∀ A, M A → s.Admits A) (hs : s.Ordered) (n : Nat) :
    (∀ t : Ty, t.Ordered → t.Conforms φ M → (s.chase n t).Conforms φ M) ∧
      ∀ (before : Option Fields) (r : Row), r.Ordered → r.ConformsIn φ M before →
        (s.chaseRow n r).ConformsIn φ M before := by
  induction n with
  | zero => exact ⟨fun _ _ ht => ht, fun _ _ _ hr => hr⟩
  | succ n ih =>
      have hkeeps := h.keeps hM hs ih
      exact ⟨fun t ht hconf => hconf.subst hkeeps ht, fun before r hr hconf => hconf.substRow hkeeps hr⟩

theorem Conforms.apply (h : s.Conforms φ M) (hM : ∀ A, M A → s.Admits A) (hs : s.Ordered) {t : Ty}
    (ht : t.Ordered) (hconf : t.Conforms φ M) : (s.apply t).Conforms φ M :=
  (h.chase_both hM hs _).1 t ht hconf

theorem Conforms.applyRow (h : s.Conforms φ M) (hM : ∀ A, M A → s.Admits A) (hs : s.Ordered)
    {before : Option Fields} {r : Row} (hr : r.Ordered) (hconf : r.ConformsIn φ M before) :
    (s.applyRow r).ConformsIn φ M before :=
  (h.chase_both hM hs _).2 before r hr hconf

end Substitution

end RowTyping
