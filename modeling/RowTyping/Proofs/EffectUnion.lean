import RowTyping.Proofs.Inference.Rows

namespace RowTyping.Effects

structure OfLabels (e : Effects) : Prop where
  kind : ∀ row ∈ e, row.kind = .effectRow
  ascending : OrderedMap.Ascending e.toRow.fields
  unit : ∀ f ∈ e.toRow.fields, f.2 = .unit

variable {a b c e : Effects} {l : Label} {rows rows' : List Effects}

section Labels

theorem ofLabels_none : OfLabels none :=
  ⟨nofun, .nil, List.forall_mem_nil _⟩

theorem ofLabels_some {row : Row} : OfLabels (some row) ↔
    row.kind = .effectRow ∧ OrderedMap.Ascending row.fields ∧ ∀ f ∈ row.fields, f.2 = .unit := by
  constructor
  · exact fun h => ⟨h.kind row rfl, h.ascending, h.unit⟩
  · exact fun ⟨hkind, hasc, hunit⟩ => ⟨fun _ hrow => Option.some.inj hrow ▸ hkind, hasc, hunit⟩

theorem ofLabels_closed (labels : List Label) : OfLabels (closed labels) :=
  ofLabels_some.mpr ⟨rfl, OrderedMap.ascending_ofList _, fun _ hf => State.mem_unit_fields hf⟩

theorem ofLabels_opened (labels : List Label) (rest : RowVarId) : OfLabels (opened labels rest) :=
  ofLabels_some.mpr ⟨rfl, OrderedMap.ascending_ofList _, fun _ hf => State.mem_unit_fields hf⟩

theorem ofLabels_iff : OfLabels e ↔ e = none ∨ ∃ labels, e = closed labels ∨ ∃ rest, e = opened labels rest := by
  constructor
  · intro h
    cases e with
    | none => exact .inl rfl
    | some row =>
        obtain ⟨hkind, hasc, hunit⟩ := ofLabels_some.mp h
        obtain ⟨kind, fields, rest⟩ := row
        obtain rfl : kind = .effectRow := hkind
        have hlabels : (OrderedMap.keys fields).map (fun l => (l, Ty.unit)) = fields := by
          have hid : ∀ f ∈ fields, (f.1, Ty.unit) = id f := fun f hf => Prod.ext rfl (hunit f hf).symm
          rw [OrderedMap.keys, List.map_map]
          exact (List.map_congr_left hid).trans (List.map_id fields)
        have hfields : OrderedMap.ofList ((OrderedMap.keys fields).map fun l => (l, Ty.unit)) = fields := by
          rw [hlabels]
          exact OrderedMap.nil_merge hasc
        refine .inr ⟨OrderedMap.keys fields, ?_⟩
        cases rest with
        | none => exact .inl (by rw [closed, Row.closedEffects, hfields])
        | some rest => exact .inr ⟨rest, by rw [opened, Row.openEffects, Row.closedEffects, hfields]⟩
  · rintro (rfl | ⟨labels, rfl | ⟨rest, rfl⟩⟩)
    · exact ofLabels_none
    · exact ofLabels_closed labels
    · exact ofLabels_opened labels rest

theorem OfLabels.find?_fields (h : e.OfLabels) (l : Label) :
    OrderedMap.find? e.toRow.fields l = if l ∈ e.labels then some .unit else none := by
  rw [← labels_toRow]
  split
  next hl =>
    obtain ⟨t, ht⟩ := OrderedMap.mem_keys_iff.mp hl
    obtain rfl : t = .unit := h.unit _ (OrderedMap.mem_of_find? ht)
    exact ht
  next hl => exact OrderedMap.find?_eq_none_iff.mpr hl

theorem OfLabels.ext (ha : a.OfLabels) (hb : b.OfLabels) (hpure : a.isPure = b.isPure) (hlabels : ∀ l, l ∈ a.labels ↔ l ∈ b.labels)
    (htail : a.tail = b.tail) : a = b := by
  have hfields : a.toRow.fields = b.toRow.fields :=
    ha.ascending.ext hb.ascending fun l => by rw [ha.find?_fields, hb.find?_fields, if_congr (hlabels l) rfl rfl]
  cases a with
  | none => exact (Option.isNone_iff_eq_none.mp hpure.symm).symm
  | some row =>
      cases b with
      | none => cases hpure
      | some row' =>
          obtain ⟨kind, fields, rest⟩ := row
          obtain ⟨kind', fields', rest'⟩ := row'
          obtain rfl : kind = kind' := (ha.kind _ rfl).trans (hb.kind _ rfl).symm
          obtain rfl : fields = fields' := hfields
          obtain rfl : rest = rest' := htail
          rfl

end Labels

section Union

theorem isPure_union (a b : Effects) : (union a b).isPure = (a.isPure && b.isPure) := by
  cases a <;> cases b <;> rfl

theorem unionTail_eq (r s : Option RowVarId) : unionTail r s = Option.merge min r s := by
  cases r <;> cases s <;> rfl

theorem tail_union_eq (a b : Effects) : (union a b).tail = Option.merge min a.tail b.tail := by
  rw [← unionTail_eq]
  cases a with
  | none => rfl
  | some row =>
      cases b with
      | none => cases hrest : row.rest <;> simp [union, tail, unionTail, hrest]
      | some => rfl

theorem OfLabels.union (ha : a.OfLabels) (hb : b.OfLabels) : (Effects.union a b).OfLabels := by
  cases a with
  | none => exact hb
  | some row =>
      cases b with
      | none => exact ha
      | some row' =>
          refine ofLabels_some.mpr ⟨ha.kind row rfl, ha.ascending.merge _, fun f hf => ?_⟩
          exact (OrderedMap.mem_merge hf).elim (ha.unit f) (hb.unit f)

theorem union_none (a : Effects) : union a none = a := by
  cases a <;> rfl

theorem union_comm (ha : a.OfLabels) (hb : b.OfLabels) : union a b = union b a := by
  refine (ha.union hb).ext (hb.union ha) ?_ (fun l => ?_) ?_
  · rw [isPure_union, isPure_union, Bool.and_comm]
  · rw [mem_labels_union hb.ascending, mem_labels_union ha.ascending, or_comm]
  · rw [tail_union_eq, tail_union_eq]
    exact Std.Commutative.comm _ _

theorem union_assoc (ha : a.OfLabels) (hb : b.OfLabels) (hc : c.OfLabels) : union (union a b) c = union a (union b c) := by
  have hbc := hb.union hc
  refine ((ha.union hb).union hc).ext (ha.union hbc) ?_ (fun l => ?_) ?_
  · simp only [isPure_union, Bool.and_assoc]
  · rw [mem_labels_union hc.ascending, mem_labels_union hb.ascending, mem_labels_union hbc.ascending,
      mem_labels_union hc.ascending, or_assoc]
  · simp only [tail_union_eq]
    exact Std.Associative.assoc _ _ _

theorem union_self (ha : a.OfLabels) : union a a = a := by
  refine (ha.union ha).ext ha ?_ (fun l => ?_) ?_
  · rw [isPure_union, Bool.and_self]
  · rw [mem_labels_union ha.ascending, or_self]
  · rw [tail_union_eq]
    exact Std.IdempotentOp.idempotent _

end Union

section Joining

theorem foldl_union_ofLabels (he : e.OfLabels) (h : ∀ e ∈ rows, e.OfLabels) : (rows.foldl union e).OfLabels := by
  induction rows generalizing e with
  | nil => exact he
  | cons e' rows ih =>
      rw [List.forall_mem_cons] at h
      exact ih (he.union h.1) h.2

theorem ofLabels_unionAll (h : ∀ e ∈ rows, e.OfLabels) : (unionAll rows).OfLabels :=
  foldl_union_ofLabels ofLabels_none h

theorem foldl_union (he : e.OfLabels) (h : ∀ e ∈ rows, e.OfLabels) : rows.foldl union e = union e (unionAll rows) := by
  induction rows generalizing e with
  | nil => exact (union_none e).symm
  | cons e' rows ih =>
      rw [List.forall_mem_cons] at h
      have hrows := ofLabels_unionAll h.2
      calc
        rows.foldl union (union e e') = union (union e e') (unionAll rows) := ih (he.union h.1) h.2
        _ = union e (union e' (unionAll rows)) := union_assoc he h.1 hrows
        _ = union e (unionAll (e' :: rows)) := by rw [← ih h.1 h.2]; rfl

theorem unionAll_cons (he : e.OfLabels) (h : ∀ e ∈ rows, e.OfLabels) : unionAll (e :: rows) = union e (unionAll rows) :=
  foldl_union he h

theorem unionAll_append (h : ∀ e ∈ rows, e.OfLabels) (h' : ∀ e ∈ rows', e.OfLabels) :
    unionAll (rows ++ rows') = union (unionAll rows) (unionAll rows') := by
  rw [unionAll, List.foldl_append]
  exact foldl_union (ofLabels_unionAll h) h'

theorem unionAll_union_of_forall (h : ∀ e ∈ rows, e.OfLabels) (ha : a.OfLabels) (habsorbed : ∀ e ∈ rows, union e a = a) :
    union (unionAll rows) a = a := by
  induction rows with
  | nil => rfl
  | cons e rows ih =>
      rw [List.forall_mem_cons] at h habsorbed
      rw [unionAll_cons h.1 h.2, union_assoc h.1 (ofLabels_unionAll h.2) ha, ih h.2 habsorbed.2, habsorbed.1]

theorem union_unionAll_of_mem (h : ∀ e ∈ rows, e.OfLabels) (he : e ∈ rows) : union e (unionAll rows) = unionAll rows := by
  induction rows with
  | nil => cases he
  | cons e' rows ih =>
      rw [List.forall_mem_cons] at h
      have hrows := ofLabels_unionAll h.2
      rw [unionAll_cons h.1 h.2]
      rcases List.mem_cons.mp he with rfl | he
      · rw [← union_assoc h.1 h.1 hrows, union_self h.1]
      · have hlabels := h.2 e he
        calc
          union e (union e' (unionAll rows)) = union (union e e') (unionAll rows) := (union_assoc hlabels h.1 hrows).symm
          _ = union (union e' e) (unionAll rows) := by rw [union_comm hlabels h.1]
          _ = union e' (union e (unionAll rows)) := union_assoc h.1 hlabels hrows
          _ = union e' (unionAll rows) := by rw [ih h.2 he]

theorem union_unionAll_of_subset (h : ∀ e ∈ rows', e.OfLabels) (hsubset : ∀ e ∈ rows, e ∈ rows') :
    union (unionAll rows) (unionAll rows') = unionAll rows' :=
  unionAll_union_of_forall (fun e he => h e (hsubset e he)) (ofLabels_unionAll h) fun _ he => union_unionAll_of_mem h (hsubset _ he)

theorem unionAll_congr (h : ∀ e ∈ rows, e.OfLabels) (hsame : ∀ e, e ∈ rows' ↔ e ∈ rows) : unionAll rows' = unionAll rows := by
  have h' : ∀ e ∈ rows', e.OfLabels := fun e he => h e ((hsame e).mp he)
  calc
    unionAll rows' = union (unionAll rows) (unionAll rows') := (union_unionAll_of_subset h' fun e he => (hsame e).mpr he).symm
    _ = union (unionAll rows') (unionAll rows) := union_comm (ofLabels_unionAll h) (ofLabels_unionAll h')
    _ = unionAll rows := union_unionAll_of_subset h fun e he => (hsame e).mp he

inductive Joining where
  | pure
  | row (e : Effects)
  | both (left right : Joining)

namespace Joining

def members : Joining → List Effects
  | pure => []
  | row e => [e]
  | both j j' => j.members ++ j'.members

def union : Joining → Effects
  | pure => none
  | row e => e
  | both j j' => Effects.union j.union j'.union

theorem union_eq : ∀ j : Joining, (∀ e ∈ j.members, e.OfLabels) → j.union = unionAll j.members
  | pure, _ => rfl
  | row _, _ => rfl
  | both j j', h => by
      obtain ⟨hj, hj'⟩ := List.forall_mem_append.mp h
      rw [union, union_eq j hj, union_eq j' hj', members, unionAll_append hj hj']

end Joining

theorem union_laws (ha : a.OfLabels) (hb : b.OfLabels) (hc : c.OfLabels) (hrows : ∀ e ∈ rows, e.OfLabels) :
    (union a b).OfLabels ∧ (∀ l, l ∈ (union a b).labels ↔ l ∈ a.labels ∨ l ∈ b.labels) ∧
    (union a b).tail = Option.merge min a.tail b.tail ∧
    union a b = union b a ∧ union (union a b) c = union a (union b c) ∧ union a a = a ∧ union none a = a ∧ union a none = a ∧
    ∀ j : Joining, (∀ e, e ∈ j.members ↔ e ∈ rows) → j.union = unionAll rows := by
  refine ⟨ha.union hb, fun l => mem_labels_union hb.ascending, tail_union_eq a b, union_comm ha hb, union_assoc ha hb hc,
    union_self ha, rfl, union_none a, fun j hj => ?_⟩
  rw [j.union_eq fun e he => hrows e ((hj e).mp he)]
  exact unionAll_congr hrows hj

theorem union_laws_grouped :
    let io := closed ["IO"]
    let net := opened ["Net"] 4
    let fs := opened ["FS"] 2
    let j := Joining.both (.row fs) (.both (.both (.row net) .pure) (.both (.row io) (.row fs)))
    (∀ e ∈ [io, net, fs], e.OfLabels) ∧ union net fs = union fs net ∧ j.union = unionAll [io, net, fs] ∧
      j.union = opened ["FS", "IO", "Net"] 2 := by
  intro io net fs j
  have hio : io.OfLabels := ofLabels_closed _
  have hnet : net.OfLabels := ofLabels_opened _ _
  have hfs : fs.OfLabels := ofLabels_opened _ _
  have hrows : ∀ e ∈ [io, net, fs], e.OfLabels := by
    simp only [List.forall_mem_cons]
    exact ⟨hio, hnet, hfs, List.forall_mem_nil _⟩
  obtain ⟨-, -, -, hcomm, -, -, -, -, hjoined⟩ := union_laws hnet hfs hio hrows
  have hmembers : ∀ e, e ∈ j.members ↔ e ∈ [io, net, fs] := by
    intro e
    simp only [j, Joining.members, List.mem_append, List.mem_cons, List.not_mem_nil]
    tauto
  exact ⟨hrows, hcomm, hjoined j hmembers, by decide +kernel⟩

end Joining

end RowTyping.Effects
