import RowTyping.Effects
import RowTyping.Proofs.Assignment

namespace RowTyping.Effects

structure Includes (e e' : Effects) : Prop where
  labels : ∀ l ∈ e'.labels, l ∈ e.labels
  tail : ∀ r, e'.tail = some r → e.tail = some r

theorem Includes.refl (e : Effects) : e.Includes e :=
  ⟨fun _ h => h, fun _ h => h⟩

theorem Includes.trans {e e₁ e' : Effects} (h : e.Includes e₁) (h' : e₁.Includes e') : e.Includes e' :=
  ⟨fun l hl => h.labels l (h'.labels l hl), fun r hr => h.tail r (h'.tail r hr)⟩

variable {A : Assignment} {e e' : Effects} {l : Label} {r : RowVarId}

section Union

theorem labels_toRow (e : Effects) : e.toRow.labels = e.labels := by
  cases e <;> rfl

theorem rest_toRow (e : Effects) : e.toRow.rest = e.tail := by
  cases e <;> rfl

theorem mem_labels_union (he' : OrderedMap.Ascending e'.toRow.fields) : l ∈ (union e e').labels ↔ l ∈ e.labels ∨ l ∈ e'.labels := by
  cases e with
  | none => exact (or_iff_right List.not_mem_nil).symm
  | some a =>
      cases e' with
      | none => exact (or_iff_left List.not_mem_nil).symm
      | some b => exact OrderedMap.mem_keys_merge he'

theorem tail_union (e e' : Effects) :
    ((union e e').tail = none → e.tail = none ∧ e'.tail = none) ∧
      ∀ r, (union e e').tail = some r → e.tail = some r ∨ e'.tail = some r := by
  cases e with
  | none => exact ⟨fun h => ⟨rfl, h⟩, fun _ h => .inr h⟩
  | some a =>
      cases e' with
      | none => exact ⟨fun h => ⟨h, rfl⟩, fun _ h => .inl h⟩
      | some b =>
          change (unionTail a.rest b.rest = none → a.rest = none ∧ b.rest = none) ∧
            ∀ r, unionTail a.rest b.rest = some r → a.rest = some r ∨ b.rest = some r
          cases a.rest <;> cases b.rest <;> grind [unionTail]

structure Covers (e : Effects) (rows : List Effects) : Prop where
  labels : ∀ e' ∈ rows, ∀ l ∈ e'.labels, l ∈ e.labels
  closed : e.tail = none → ∀ e' ∈ rows, e'.tail = none
  tail : ∀ r, e.tail = some r → ∃ e' ∈ rows, e'.tail = some r

theorem Covers.union {rows : List Effects} (h : e.Covers rows) (he' : OrderedMap.Ascending e'.toRow.fields) :
    (Effects.union e e').Covers (rows ++ [e']) := by
  obtain ⟨hnone, hsome⟩ := tail_union e e'
  constructor
  · rw [List.forall_mem_append, List.forall_mem_singleton]
    exact ⟨fun e₁ he₁ l hl => (mem_labels_union he').mpr (.inl (h.labels e₁ he₁ l hl)),
      fun l hl => (mem_labels_union he').mpr (.inr hl)⟩
  · intro htail
    rw [List.forall_mem_append, List.forall_mem_singleton]
    exact ⟨h.closed (hnone htail).1, (hnone htail).2⟩
  · intro r hr
    rcases hsome r hr with hr | hr
    · obtain ⟨e₁, he₁, hr⟩ := h.tail r hr
      exact ⟨e₁, List.mem_append_left _ he₁, hr⟩
    · exact ⟨e', List.mem_append_right _ (List.mem_singleton_self _), hr⟩

theorem covers_unionAll {rows : List Effects} (hrows : ∀ e ∈ rows, OrderedMap.Ascending e.toRow.fields) :
    (unionAll rows).Covers rows := by
  have hfoldl {e : Effects} {before : List Effects} (h : e.Covers before) : (rows.foldl union e).Covers (before ++ rows) := by
    induction rows generalizing e before with
    | nil => rwa [List.append_nil]
    | cons e' rows ih =>
        rw [List.forall_mem_cons] at hrows
        rw [List.append_cons]
        exact ih hrows.2 (h.union hrows.1)
  have hnone : Covers none [] := ⟨nofun, nofun, nofun⟩
  exact hfoldl hnone

end Union

theorem normalize_eq (e : Effects) : (normalize e).labels = e.labels ∧ (normalize e).tail = e.tail := by
  cases e with
  | none => exact ⟨rfl, rfl⟩
  | some row =>
      rw [normalize]
      split
      next h =>
        obtain ⟨hclosed, hempty⟩ := Bool.and_eq_true_iff.mp h
        exact ⟨(congrArg OrderedMap.keys (List.isEmpty_iff.mp hempty)).symm, (Option.isNone_iff_eq_none.mp hclosed).symm⟩
      next => exact ⟨rfl, rfl⟩

section Declared

theorem elaborate_ok_iff {names : List String} {e : Effects} : elaborate names = .ok e ↔
    (∀ name ∈ names, isKnown name = true) ∧ e = if names.isEmpty then none else closed names := by
  rw [elaborate]
  split
  next unknown hfind =>
    refine iff_of_false nofun fun h => ?_
    have hunknown := List.find?_some hfind
    simp [h.1 unknown (List.mem_of_find?_eq_some hfind)] at hunknown
  next hnone =>
    have hknown : ∀ name ∈ names, isKnown name = true := by simpa using hnone
    rw [Except.ok.injEq, eq_comm]
    exact (and_iff_right hknown).symm

structure BoundedBy (e : Effects) (names : List Label) : Prop where
  tail : e.tail = none
  labels : ∀ l ∈ e.labels, l ∈ names

theorem boundedBy_elaborate {names : List String} {e : Effects} (h : elaborate names = .ok e) : e.BoundedBy names := by
  obtain ⟨-, rfl⟩ := elaborate_ok_iff.mp h
  split
  · exact ⟨rfl, nofun⟩
  · exact ⟨rfl, fun l hl => by simpa using OrderedMap.mem_keys_ofList.mp hl⟩

theorem boundedBy_of_subsumed {e declared : Effects} {names : List Label} (hdeclared : declared.BoundedBy names)
    (htail : e.tail = none) (h : subsumed e declared = true) : e.BoundedBy names := by
  refine ⟨htail, fun l hl => hdeclared.labels l ?_⟩
  cases e with
  | none => cases hl
  | some a =>
      cases declared with
      | none => cases h
      | some b =>
          have hopen : b.isOpen = false := by rw [Row.isOpen, show b.rest = none from hdeclared.tail, Option.isSome_none]
          rw [subsumed, hopen, Bool.false_or, Bool.and_eq_true, List.all_eq_true] at h
          exact OrderedMap.contains_eq_true_iff.mp (h.2 l hl)

end Declared

section Value

def value (A : Assignment) (e : Effects) : Effects :=
  some (e.toRow.value A)

theorem mem_labels_value (hA : A.Ordered) : l ∈ (e.value A).labels ↔ l ∈ e.labels ∨ l ∈ (A.tail e.tail).fields.keys := by
  change l ∈ (e.toRow.value A).labels ↔ _
  rw [Row.value_eq, Row.labels, OrderedMap.mem_keys_merge (hA.tail _), OrderedMap.keys_mapValues, rest_toRow, ← labels_toRow]
  rfl

theorem tail_value (A : Assignment) (e : Effects) : (e.value A).tail = (A.tail e.tail).rest := by
  change (e.toRow.value A).rest = _
  rw [Row.rest_value, rest_toRow]

theorem includes_value (hA : A.Ordered) (hlabels : ∀ l ∈ e'.labels, l ∈ e.labels) (htail : e.tail = e'.tail) :
    (e.value A).Includes (e'.value A) := by
  refine ⟨fun l hl => ?_, fun r hr => ?_⟩
  · rw [mem_labels_value hA] at hl ⊢
    exact hl.imp (hlabels l) (htail ▸ id)
  · rwa [tail_value, htail, ← tail_value]

theorem BoundedBy.value (hA : A.Ordered) {names : List Label} (h : e.BoundedBy names) : (e.value A).BoundedBy names := by
  refine ⟨by rw [tail_value, h.tail]; rfl, fun l hl => ?_⟩
  rw [mem_labels_value hA, h.tail] at hl
  exact hl.elim (h.labels l) nofun

theorem includes_normalize (hA : A.Ordered) (e : Effects) : ((normalize e).value A).Includes (e.value A) :=
  includes_value hA (fun _ hl => (normalize_eq e).1 ▸ hl) (normalize_eq e).2

theorem Covers.includes (hA : A.Ordered) {rows : List Effects} (h : e.Covers rows)
    (htails : ∀ e₁ ∈ rows, ∀ e₂ ∈ rows, ∀ r₁ r₂, e₁.tail = some r₁ → e₂.tail = some r₂ → A.row r₁ = A.row r₂) :
    ∀ e' ∈ rows, (e.value A).Includes (e'.value A) := by
  intro e' he'
  have htail : e'.tail = none ∨ A.tail e.tail = A.tail e'.tail := by
    cases hr' : e'.tail with
    | none => exact .inl rfl
    | some r' =>
        cases hr : e.tail with
        | none => exact absurd ((h.closed hr e' he').symm.trans hr') nofun
        | some r =>
            obtain ⟨e₁, he₁, hr₁⟩ := h.tail r hr
            exact .inr (htails e₁ he₁ e' he' r r' hr₁ hr')
  refine ⟨fun l hl => ?_, fun r hr => ?_⟩
  · rw [mem_labels_value hA] at hl ⊢
    refine hl.imp (h.labels e' he' l) fun hl => ?_
    rcases htail with hnone | heq
    · rw [hnone] at hl
      cases hl
    · rwa [heq]
  · rw [tail_value] at hr ⊢
    rcases htail with hnone | heq
    · rw [hnone] at hr
      cases hr
    · rwa [heq]

theorem labels_explicit (e : Effects) (l : Label) : l ∈ (e.value .identity).labels ↔ l ∈ e.labels := by
  rw [mem_labels_value Substitution.identity_ordered]
  cases e.tail <;> exact or_iff_left List.not_mem_nil

theorem tail_explicit (e : Effects) : (e.value .identity).tail = e.tail := by
  rw [tail_value]
  cases e.tail <;> rfl

theorem includes_explicit : (e.value .identity).Includes (e'.value .identity) ↔ e.Includes e' := by
  constructor
  · intro h
    exact ⟨fun l hl => (labels_explicit e l).mp (h.labels l ((labels_explicit e' l).mpr hl)),
      fun r hr => tail_explicit e ▸ h.tail r ((tail_explicit e').trans hr)⟩
  · intro h
    exact ⟨fun l hl => (labels_explicit e l).mpr (h.labels l ((labels_explicit e' l).mp hl)),
      fun r hr => (tail_explicit e).trans (h.tail r (tail_explicit e' ▸ hr))⟩

end Value

end RowTyping.Effects
