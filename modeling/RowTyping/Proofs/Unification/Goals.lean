import RowTyping.Proofs.Assignment
import RowTyping.Proofs.Unification.Run

namespace RowTyping

structure Inherited (P : Ty → Prop) (Q : Row → Prop) : Prop where
  app : ∀ {h as}, P (.app h as) → P h ∧ ∀ a ∈ as, P a
  list : ∀ {a}, P (.list a) → P a
  tuple : ∀ {as}, P (.tuple as) → ∀ a ∈ as, P a
  fn : ∀ {ps e r}, P (.fn ps e r) → (∀ p ∈ ps, P p) ∧ Q (Effects.toRow e) ∧ P r
  record : ∀ {r}, P (.record r) → Q r
  field : ∀ {r}, Q r → ∀ f ∈ r.fields, P f.2

structure Hereditary (P : Ty → Prop) (Q : Row → Prop) : Prop extends Inherited P Q where
  residual : ∀ {r} (p : Label × Ty → Bool), Q r → Q { r with fields := r.fields.filter p }

theorem Inherited.forall {ι : Sort _} {P : ι → Ty → Prop} {Q : ι → Row → Prop} (h : ∀ i, Inherited (P i) (Q i)) :
    Inherited (fun t => ∀ i, P i t) fun r => ∀ i, Q i r where
  app ht := ⟨fun i => ((h i).app (ht i)).1, fun a ha i => ((h i).app (ht i)).2 a ha⟩
  list ht i := (h i).list (ht i)
  tuple ht a ha i := (h i).tuple (ht i) a ha
  fn ht := ⟨fun p hp i => ((h i).fn (ht i)).1 p hp, fun i => ((h i).fn (ht i)).2.1, fun i => ((h i).fn (ht i)).2.2⟩
  record ht i := (h i).record (ht i)
  field hr f hf i := (h i).field (hr i) f hf

theorem Inherited.and {P P' : Ty → Prop} {Q Q' : Row → Prop} (h : Inherited P Q) (h' : Inherited P' Q') :
    Inherited (fun t => P t ∧ P' t) fun r => Q r ∧ Q' r where
  app ht := ⟨⟨(h.app ht.1).1, (h'.app ht.2).1⟩, fun a ha => ⟨(h.app ht.1).2 a ha, (h'.app ht.2).2 a ha⟩⟩
  list ht := ⟨h.list ht.1, h'.list ht.2⟩
  tuple ht a ha := ⟨h.tuple ht.1 a ha, h'.tuple ht.2 a ha⟩
  fn ht := ⟨fun p hp => ⟨(h.fn ht.1).1 p hp, (h'.fn ht.2).1 p hp⟩, ⟨(h.fn ht.1).2.1, (h'.fn ht.2).2.1⟩,
    (h.fn ht.1).2.2, (h'.fn ht.2).2.2⟩
  record ht := ⟨h.record ht.1, h'.record ht.2⟩
  field hr f hf := ⟨h.field hr.1 f hf, h'.field hr.2 f hf⟩

theorem Hereditary.and {P P' : Ty → Prop} {Q Q' : Row → Prop} (h : Hereditary P Q) (h' : Hereditary P' Q') :
    Hereditary (fun t => P t ∧ P' t) fun r => Q r ∧ Q' r where
  toInherited := h.toInherited.and h'.toInherited
  residual p hr := ⟨h.residual p hr.1, h'.residual p hr.2⟩

theorem hereditary_occurrences (C : Occurrence → Prop) :
    Hereditary (fun t => ∀ o ∈ t.occurrences, C o) fun r => ∀ o ∈ r.occurrences, C o where
  app h := ⟨fun o ho => h o (Ty.mem_occurrences_app.mpr (.inl ho)),
    fun a ha o ho => h o (Ty.mem_occurrences_app.mpr (.inr ⟨a, ha, ho⟩))⟩
  list h o ho := h o (Ty.mem_occurrences_list.mpr ho)
  tuple h a ha o ho := h o (Ty.mem_occurrences_tuple.mpr ⟨a, ha, ho⟩)
  fn {ps e r} h := by
    refine ⟨fun p hp o ho => h o (Ty.mem_occurrences_fn.mpr (.inl ⟨p, hp, ho⟩)), ?_,
      fun o ho => h o (Ty.mem_occurrences_fn.mpr (.inr (.inr ho)))⟩
    cases e with
    | none =>
        intro o ho
        cases ho
    | some row => exact fun o ho => h o (Ty.mem_occurrences_fn.mpr (.inr (.inl ⟨row, rfl, ho⟩)))
  record h o ho := h o (Ty.mem_occurrences_record.mpr ho)
  field {r} h f hf o ho := by
    obtain ⟨k, fs, rest⟩ := r
    exact h o (Row.mem_occurrences.mpr (.inl ⟨f, hf, ho⟩))
  residual {r} p h o ho := by
    obtain ⟨k, fs, rest⟩ := r
    rcases Row.mem_occurrences.mp ho with ⟨f, hf, ho⟩ | hrest
    · exact h o (Row.mem_occurrences.mpr (.inl ⟨f, List.mem_of_mem_filter hf, ho⟩))
    · exact h o (Row.mem_occurrences.mpr (.inr hrest))

theorem hereditary_vars (C : Var → Prop) : Hereditary (fun t => ∀ v ∈ t.vars, C v) fun r => ∀ v ∈ r.vars, C v := by
  simp only [Ty.vars, Row.vars, List.forall_mem_map]
  exact hereditary_occurrences fun o => C o.var

theorem inherited_rows (p : Row → Prop) (hpure : p (.closedEffects [])) :
    Inherited (fun t => ∀ r ∈ t.rows, p r) fun r => ∀ r' ∈ r.rows, p r' where
  app h := ⟨fun r hr => h r (Ty.mem_rows_app.mpr (.inl hr)),
    fun a ha r hr => h r (Ty.mem_rows_app.mpr (.inr ⟨a, ha, hr⟩))⟩
  list h r hr := h r (Ty.mem_rows_list.mpr hr)
  tuple h a ha r hr := h r (Ty.mem_rows_tuple.mpr ⟨a, ha, hr⟩)
  fn {ps e r} h := by
    refine ⟨fun p hp r hr => h r (Ty.mem_rows_fn.mpr (.inl ⟨p, hp, hr⟩)), ?_,
      fun r hr => h r (Ty.mem_rows_fn.mpr (.inr (.inr hr)))⟩
    cases e with
    | none => exact List.forall_mem_singleton.mpr hpure
    | some row => exact fun r hr => h r (Ty.mem_rows_fn.mpr (.inr (.inl ⟨row, rfl, hr⟩)))
  record h r hr := h r (Ty.mem_rows_record.mpr hr)
  field {r} h f hf r' hr' := by
    obtain ⟨k, fs, rest⟩ := r
    exact h r' (Row.mem_rows.mpr (.inr ⟨f, hf, hr'⟩))

theorem hereditary_rows (p : Row → Prop) (hpure : p (.closedEffects []))
    (hres : ∀ r q, p r → p { r with fields := r.fields.filter q }) :
    Hereditary (fun t => ∀ r ∈ t.rows, p r) fun r => ∀ r' ∈ r.rows, p r' where
  toInherited := inherited_rows p hpure
  residual {r} q h r' hr' := by
    obtain ⟨k, fs, rest⟩ := r
    rcases Row.mem_rows.mp hr' with rfl | ⟨f, hf, hr'⟩
    · exact hres _ q (h _ (Row.mem_rows.mpr (.inl rfl)))
    · exact h r' (Row.mem_rows.mpr (.inr ⟨f, List.mem_of_mem_filter hf, hr'⟩))

theorem hereditary_ordered : Hereditary Ty.Ordered Row.Ordered :=
  hereditary_rows (fun r => OrderedMap.Ascending r.fields) List.Pairwise.nil fun _ q h => h.filter q

namespace Goal

def Both (P : Ty → Prop) (Q : Row → Prop) : Goal → Prop
  | .types e a => P e ∧ P a
  | .rows e a => Q e ∧ Q a

def Holds (A : Assignment) : Goal → Prop
  | .types e a => e.value A = a.value A
  | .rows e a => e.value A = a.value A

@[simp]
theorem holds_types {A : Assignment} {e a : Ty} : (Goal.types e a).Holds A ↔ e.value A = a.value A := Iff.rfl

@[simp]
theorem holds_rows {A : Assignment} {e a : Row} : (Goal.rows e a).Holds A ↔ e.value A = a.value A := Iff.rfl

theorem mem_pairs {es as : List Ty} {g : Goal} (h : g ∈ pairs es as) : ∃ e ∈ es, ∃ a ∈ as, g = .types e a := by
  obtain ⟨⟨e, a⟩, hmem, rfl⟩ := List.mem_map.mp h
  exact ⟨e, (List.of_mem_zip hmem).1, a, (List.of_mem_zip hmem).2, rfl⟩

theorem pairs_hold {A : Assignment} {es as : List Ty} (h : es.length = as.length) :
    (∀ g ∈ pairs es as, g.Holds A) ↔ es.map (Ty.value A) = as.map (Ty.value A) := by
  induction es generalizing as with
  | nil =>
      cases as with
      | nil => simp [pairs]
      | cons => cases h
  | cons e es ih =>
      cases as with
      | nil => cases h
      | cons a as =>
          have htail := ih (Nat.succ.inj h)
          simp only [pairs, List.zip_cons_cons, List.map_cons, List.forall_mem_cons, List.cons.injEq] at htail ⊢
          exact and_congr Iff.rfl htail

end Goal

namespace Ty

inductive Parts : Ty → Ty → List Goal → Prop
  | app {h h' : Ty} {as as' : List Ty} : as.length = as'.length →
      Parts (.app h as) (.app h' as') (.types h h' :: Goal.pairs as as')
  | list {a a' : Ty} : Parts (.list a) (.list a') [.types a a']
  | tuple {as as' : List Ty} : as.length = as'.length → Parts (.tuple as) (.tuple as') (Goal.pairs as as')
  | fn {ps ps' : List Ty} {e e' : Effects} {r r' : Ty} : ps.length = ps'.length →
      Parts (.fn ps e r) (.fn ps' e' r')
        (Goal.pairs ps ps' ++ [.rows (Effects.toRow e) (Effects.toRow e'), .types r r'])

inductive Meets : Ty → Ty → Meeting → Prop
  | left {v : TypeVar} {a : Ty} : Meets (.var v) a (.bind v a)
  | right {v : TypeVar} {e : Ty} : Meets e (.var v) (.bind v e)
  | parts {e a : Ty} {part : Part} {gs : List Goal} : Parts e a gs → Meets e a (.parts part gs)
  | rows {r r' : Row} : Meets (.record r) (.record r') (.rows r r')
  | clash {e a : Ty} {failure : Failure} {error : UnifyError} : error.isCircular = false →
      (e ≠ a → ∀ A, e.value A ≠ a.value A) → Meets e a (.clash failure error)

theorem meets_clash {e a : Ty} (h : e ≠ a → ∀ A, e.value A ≠ a.value A) : Meets e a (clash e a) :=
  .clash rfl h

theorem meets_clashRecords {positional e a : Ty} (h : e ≠ a → ∀ A, e.value A ≠ a.value A) :
    Meets e a (clashRecords positional e a) := by
  rw [clashRecords]
  split
  · exact .clash rfl h
  · exact meets_clash h

theorem length_of_values {A : Assignment} {es as : List Ty} (h : es.map (value A) = as.map (value A)) :
    es.length = as.length := by
  simpa using congrArg List.length h

theorem meets_meet (e a : Ty) : Meets e a (e.meet a) := by
  unfold meet
  split
  case h_1 => exact .left
  case h_2 => exact .right
  case h_3 =>
    split
    next h => exact .parts (.app h)
    next h =>
      refine meets_clash fun _ A heq => h ?_
      simp only [value_app, app.injEq] at heq
      exact length_of_values heq.2
  case h_4 => exact .parts .list
  case h_5 =>
    split
    next h => exact .parts (.tuple h)
    next h =>
      refine .clash rfl fun _ A heq => h ?_
      simp only [value_tuple, tuple.injEq] at heq
      exact length_of_values heq
  case h_6 =>
    split
    next h => exact .parts (.fn h)
    next h =>
      refine .clash rfl fun _ A heq => h ?_
      simp only [value_fn, fn.injEq] at heq
      exact length_of_values heq.1
  case h_7 => exact .rows
  case h_8 => exact meets_clashRecords fun _ A heq => by simp at heq
  case h_9 => exact meets_clashRecords fun _ A heq => by simp at heq
  case h_10 =>
    refine meets_clash fun hne A heq => ?_
    cases e <;> cases a <;> simp_all <;> grind

section Inversion

variable {e a : Ty}

theorem bind_of_meet {v : TypeVar} {t : Ty} (h : e.meet a = .bind v t) :
    (e = .var v ∧ t = a) ∨ (a = .var v ∧ t = e) := by
  have hmeets := meets_meet e a
  rw [h] at hmeets
  cases hmeets with
  | left => exact .inl ⟨rfl, rfl⟩
  | right => exact .inr ⟨rfl, rfl⟩

theorem parts_of_meet {part : Part} {gs : List Goal} (h : e.meet a = .parts part gs) : Parts e a gs := by
  have hmeets := meets_meet e a
  rw [h] at hmeets
  cases hmeets with
  | parts hparts => exact hparts

theorem rows_of_meet {r r' : Row} (h : e.meet a = .rows r r') : e = .record r ∧ a = .record r' := by
  have hmeets := meets_meet e a
  rw [h] at hmeets
  cases hmeets with
  | rows => exact ⟨rfl, rfl⟩

theorem ne_of_meet_clash {failure : Failure} {error : UnifyError} (h : e.meet a = .clash failure error) (hne : e ≠ a)
    (A : Assignment) : e.value A ≠ a.value A := by
  have hmeets := meets_meet e a
  rw [h] at hmeets
  cases hmeets with
  | clash _ hvalue => exact hvalue hne A

end Inversion

theorem Parts.holds {A : Assignment} {e a : Ty} {gs : List Goal} (h : Parts e a gs) :
    (∀ g ∈ gs, g.Holds A) ↔ e.value A = a.value A := by
  cases h with
  | app hlen => simp only [List.forall_mem_cons, Goal.holds_types, Goal.pairs_hold hlen, value_app, app.injEq]
  | list => simp
  | tuple hlen => simp only [Goal.pairs_hold hlen, value_tuple, tuple.injEq]
  | fn hlen =>
      simp only [List.forall_mem_append, List.forall_mem_cons, Goal.pairs_hold hlen, Goal.holds_types, Goal.holds_rows,
        value_fn, fn.injEq, Option.some.injEq, List.not_mem_nil, false_implies, implies_true, and_true]

theorem height_pairs {es as : List Ty} {g : Goal} (h : g ∈ Goal.pairs es as) :
    g.height ≤ max (heightAll es) (heightAll as) := by
  obtain ⟨e, he, a, ha, rfl⟩ := Goal.mem_pairs h
  have := height_le_heightAll he
  have := height_le_heightAll ha
  simp only [Goal.height]
  omega

theorem height_toRow (e : Effects) (r : Ty) : (Effects.toRow e).height ≤ max (heightEffects e) r.height := by
  have := r.height_pos
  cases e with
  | none => exact Nat.le_trans this (Nat.le_max_right _ _)
  | some row => exact Nat.le_max_left _ _

theorem Parts.height_lt {e a : Ty} {gs : List Goal} (h : Parts e a gs) :
    ∀ g ∈ gs, g.height < max e.height a.height := by
  intro g hg
  cases h with
  | @app h h' as as' =>
      simp only [height]
      rcases List.mem_cons.mp hg with rfl | hg
      · simp only [Goal.height]
        omega
      · have := height_pairs hg
        omega
  | list =>
      rw [List.mem_singleton] at hg
      subst hg
      simp only [Goal.height, height]
      omega
  | tuple =>
      have := height_pairs hg
      simp only [height]
      omega
  | @fn ps ps' e e' r r' =>
      have := height_toRow e r
      have := height_toRow e' r'
      simp only [height]
      rcases List.mem_append.mp hg with hg | hg
      · have := height_pairs hg
        omega
      · simp only [List.mem_cons, List.not_mem_nil, or_false] at hg
        rcases hg with rfl | rfl <;> simp only [Goal.height] <;> omega

variable {P : Ty → Prop} {Q : Row → Prop}

theorem both_pairs {es as : List Ty} (hes : ∀ e ∈ es, P e) (has : ∀ a ∈ as, P a) :
    ∀ g ∈ Goal.pairs es as, g.Both P Q := by
  intro g hg
  obtain ⟨e, he, a, ha, rfl⟩ := Goal.mem_pairs hg
  exact ⟨hes e he, has a ha⟩

theorem Parts.both (hPQ : Inherited P Q) {e a : Ty} {gs : List Goal} (h : Parts e a gs) (he : P e) (ha : P a) :
    ∀ g ∈ gs, g.Both P Q := by
  cases h with
  | app =>
      obtain ⟨hh, has⟩ := hPQ.app he
      obtain ⟨hh', has'⟩ := hPQ.app ha
      exact List.forall_mem_cons.mpr ⟨⟨hh, hh'⟩, both_pairs has has'⟩
  | list => simpa [Goal.Both] using ⟨hPQ.list he, hPQ.list ha⟩
  | tuple => exact both_pairs (hPQ.tuple he) (hPQ.tuple ha)
  | fn =>
      obtain ⟨hps, hrow, hr⟩ := hPQ.fn he
      obtain ⟨hps', hrow', hr'⟩ := hPQ.fn ha
      refine List.forall_mem_append.mpr ⟨both_pairs hps hps', ?_⟩
      simpa [Goal.Both] using ⟨⟨hrow, hrow'⟩, hr, hr'⟩

end Ty

namespace Row

variable {A : Assignment} {e a : Row} {l : Label}

theorem value_ext (hkind : e.kind = a.kind) (he : OrderedMap.Ascending e.fields) (ha : OrderedMap.Ascending a.fields)
    (hrest : (A.tail e.rest).rest = (A.tail a.rest).rest) (h : ∀ l, (e.value A).get? l = (a.value A).get? l) :
    e.value A = a.value A := by
  have hfields : (e.value A).fields = (a.value A).fields := (ascending_value he).ext (ascending_value ha) h
  have hkinds : (e.value A).kind = (a.value A).kind := by rw [value_kind, value_kind, hkind]
  have hrests : (e.value A).rest = (a.value A).rest := by rw [rest_value, rest_value, hrest]
  cases hv : e.value A
  cases hw : a.value A
  simp_all

theorem mem_commonGoals {g : Goal} :
    g ∈ e.commonGoals a ↔ ∃ l t t', (l, t) ∈ e.fields ∧ a.get? l = some t' ∧ g = .types t t' := by
  simp only [commonGoals, common, List.mem_map, List.mem_filterMap, Option.map_eq_some_iff]
  constructor
  · rintro ⟨_, ⟨⟨l, t⟩, hmem, t', ht', rfl⟩, rfl⟩
    exact ⟨l, t, t', hmem, ht', rfl⟩
  · rintro ⟨l, t, t', hmem, ht', rfl⟩
    exact ⟨_, ⟨(l, t), hmem, t', ht', rfl⟩, rfl⟩

theorem height_lt_of_commonGoals {g : Goal} (h : g ∈ e.commonGoals a) : g.height < max e.height a.height := by
  obtain ⟨l, t, t', hmem, ht', rfl⟩ := mem_commonGoals.mp h
  obtain ⟨k, fs, rest⟩ := e
  obtain ⟨k', fs', rest'⟩ := a
  have ht : t.height ≤ Ty.heightFields fs := Ty.height_le_heightFields hmem
  have ht' : t'.height ≤ Ty.heightFields fs' := Ty.height_le_heightFields (OrderedMap.mem_of_find? ht')
  simp only [Goal.height, height, Ty.heightRow]
  omega

theorem commonGoals_both {P : Ty → Prop} {Q : Row → Prop} (hPQ : Inherited P Q) (he : Q e) (ha : Q a) :
    ∀ g ∈ e.commonGoals a, g.Both P Q := by
  intro g hg
  obtain ⟨l, t, t', hmem, ht', rfl⟩ := mem_commonGoals.mp hg
  exact ⟨hPQ.field he _ hmem, hPQ.field ha _ (OrderedMap.mem_of_find? ht')⟩

theorem commonGoals_hold (he : OrderedMap.Ascending e.fields) :
    (∀ g ∈ e.commonGoals a, g.Holds A) ↔
      ∀ l t t', e.get? l = some t → a.get? l = some t' → t.value A = t'.value A := by
  constructor
  · intro h l t t' ht ht'
    exact h (.types t t') (mem_commonGoals.mpr ⟨l, t, t', OrderedMap.mem_of_find? ht, ht', rfl⟩)
  · intro h g hg
    obtain ⟨l, t, t', hmem, ht', rfl⟩ := mem_commonGoals.mp hg
    exact h l t t' (he.find?_of_mem hmem) ht'

theorem has_eq (r : Row) (l : Label) : r.has l = (r.get? l).isSome := rfl

theorem get?_residual (he : OrderedMap.Ascending e.fields) :
    (e.residual a).get? l = if (a.get? l).isSome then none else e.get? l := by
  have := OrderedMap.find?_filter he (fun l => !a.has l) l
  rw [residual, get?, only, this, has_eq]
  cases (a.get? l).isSome <;> rfl

theorem ascending_only (he : OrderedMap.Ascending e.fields) : OrderedMap.Ascending (e.only a) :=
  OrderedMap.Ascending.filter _ he

-- Under a common label the residual rows show what the tails hold there, which must be the same.
theorem value_eq_of_residual (hA : A.Ordered) (he : OrderedMap.Ascending e.fields)
    (ha : OrderedMap.Ascending a.fields) (hkind : e.kind = a.kind) (hcommon : ∀ g ∈ e.commonGoals a, g.Holds A)
    (h : (e.residual a).value A = (a.residual e).value A) : e.value A = a.value A := by
  have hrest : (A.tail e.rest).rest = (A.tail a.rest).rest := by
    have := congrArg Row.rest h
    rwa [rest_value, rest_value] at this
  apply value_ext hkind he ha hrest
  intro l
  have hl : ((e.residual a).value A).get? l = ((a.residual e).value A).get? l := by rw [h]
  rw [get?_value hA, get?_value hA, get?_residual he, get?_residual ha] at hl
  rw [get?_value hA, get?_value hA]
  cases het : e.get? l with
  | none => cases hat : a.get? l <;> simpa [het, hat, residual] using hl
  | some t =>
      cases hat : a.get? l with
      | none => simpa [het, hat, residual] using hl
      | some t' =>
          have heq := (commonGoals_hold he).mp hcommon l t t' het hat
          simp only [het, hat, Option.isSome_some, if_true, Option.map_none, Option.or_none, residual] at hl
          simp [heq, hl]

end Row

end RowTyping
