import RowTyping.Proofs.EffectUnion

namespace RowTyping.Effects

variable {a b c : Effects} {rows : List Effects} {xs ys zs : List String}

section Order

theorem subsumed_iff : subsumed a b = true ↔
    (b.isPure = true → a.isPure = true) ∧ (b.tail = none → a.tail = none ∧ ∀ l ∈ a.labels, l ∈ b.labels) := by
  cases a with
  | none => exact iff_of_true rfl ⟨fun _ => rfl, fun _ => ⟨rfl, nofun⟩⟩
  | some row =>
      cases b with
      | none => exact iff_of_false nofun fun h => nomatch h.1 rfl
      | some row' =>
          have hpure : (isPure (some row') = true → isPure (some row) = true) ↔ True := iff_true_intro nofun
          have hlabels : row.labels.all row'.has = true ↔ ∀ l ∈ row.labels, l ∈ row'.labels := by
            rw [List.all_eq_true]
            exact forall₂_congr fun l _ => OrderedMap.contains_eq_true_iff
          rw [hpure, true_and, subsumed, Bool.or_eq_true, Bool.and_eq_true, hlabels, Row.isOpen, Row.isClosed,
            Option.isNone_iff_eq_none, Option.isSome_iff_ne_none, ← Decidable.imp_iff_not_or]
          exact Iff.rfl

theorem subsumed_refl (a : Effects) : subsumed a a = true :=
  subsumed_iff.mpr ⟨id, fun h => ⟨h, fun _ hl => hl⟩⟩

theorem subsumed_trans (hab : subsumed a b = true) (hbc : subsumed b c = true) : subsumed a c = true := by
  obtain ⟨hpure, hclosed⟩ := subsumed_iff.mp hab
  obtain ⟨hpure', hclosed'⟩ := subsumed_iff.mp hbc
  refine subsumed_iff.mpr ⟨fun h => hpure (hpure' h), fun h => ?_⟩
  obtain ⟨htail, hlabels'⟩ := hclosed' h
  obtain ⟨htail, hlabels⟩ := hclosed htail
  exact ⟨htail, fun l hl => hlabels' l (hlabels l hl)⟩

theorem tail_union_eq_none_iff : (union a b).tail = none ↔ a.tail = none ∧ b.tail = none := by
  rw [tail_union_eq]
  cases a.tail <;> cases b.tail <;> simp [Option.merge]

theorem subsumed_union_iff (hb : b.OfLabels) : subsumed (union a b) c = true ↔ subsumed a c = true ∧ subsumed b c = true := by
  simp only [subsumed_iff, isPure_union, Bool.and_eq_true, tail_union_eq_none_iff, mem_labels_union hb.ascending,
    or_imp, forall_and]
  tauto

theorem subsumed_unionAll_iff (h : ∀ e ∈ rows, e.OfLabels) :
    subsumed (unionAll rows) c = true ↔ ∀ e ∈ rows, subsumed e c = true := by
  induction rows with
  | nil => exact iff_of_true rfl (List.forall_mem_nil _)
  | cons e rows ih =>
      rw [List.forall_mem_cons] at h
      rw [unionAll_cons h.1 h.2, subsumed_union_iff (ofLabels_unionAll h.2), ih h.2, List.forall_mem_cons]

theorem subsumed_laws (hb : b.OfLabels) (hrows : ∀ e ∈ rows, e.OfLabels) :
    subsumed a a = true ∧ (subsumed a b = true → subsumed b c = true → subsumed a c = true) ∧
    subsumed a (union a b) = true ∧ subsumed b (union a b) = true ∧
    (subsumed a c = true → subsumed b c = true → subsumed (union a b) c = true) ∧
    (∀ e ∈ rows, subsumed e (unionAll rows) = true) ∧
    (subsumed (unionAll rows) c = true ↔ ∀ e ∈ rows, subsumed e c = true) := by
  obtain ⟨hleft, hright⟩ := (subsumed_union_iff hb).mp (subsumed_refl (union a b))
  have hbounds := (subsumed_unionAll_iff hrows).mp (subsumed_refl (unionAll rows))
  exact ⟨subsumed_refl a, subsumed_trans, hleft, hright, fun hac hbc => (subsumed_union_iff hb).mpr ⟨hac, hbc⟩, hbounds,
    subsumed_unionAll_iff hrows⟩

theorem subsumed_laws_shapes :
    let io := closed ["IO"]
    let net := opened ["Net"] 4
    (∀ e ∈ [io, none, closed []], e.OfLabels) ∧ net.OfLabels ∧ subsumed io net = true ∧ subsumed (closed []) none = false ∧
      subsumed io (union io net) = true ∧ subsumed net (union io net) = true ∧
      subsumed (unionAll [io, none, closed []]) io = true := by
  intro io net
  have hnet : net.OfLabels := ofLabels_opened _ _
  have hrows : ∀ e ∈ [io, none, closed []], e.OfLabels := by
    simp only [List.forall_mem_cons]
    exact ⟨ofLabels_closed _, ofLabels_none, ofLabels_closed _, List.forall_mem_nil _⟩
  obtain ⟨-, -, hleft, hright, -, -, hbound⟩ := subsumed_laws (a := io) (c := io) hnet hrows
  exact ⟨hrows, hnet, by decide, by decide, hleft, hright, hbound.mpr (by decide)⟩

end Order

section Elaboration

theorem elaborate_error_iff : (∃ d, elaborate xs = .error d) ↔ ∃ name ∈ xs, isKnown name = false := by
  rw [← not_iff_not]
  push Not
  simp only [ne_eq, Bool.not_eq_false]
  constructor
  · intro h
    cases he : elaborate xs with
    | error d => exact absurd he (h d)
    | ok e => exact (elaborate_ok_iff.mp he).1
  · intro h d hd
    rw [elaborate_ok_iff.mpr ⟨h, rfl⟩] at hd
    cases hd

theorem mem_labels_closed {labels : List Label} {l : Label} : l ∈ (closed labels).labels ↔ l ∈ labels := by
  change l ∈ OrderedMap.keys (OrderedMap.ofList (labels.map fun l => (l, Ty.unit))) ↔ _
  rw [OrderedMap.mem_keys_ofList, List.map_map]
  exact (List.map_id labels).symm ▸ Iff.rfl

theorem ofLabels_elaborate {e : Effects} (h : elaborate xs = .ok e) :
    (e.isPure = true ↔ xs = []) ∧ e.OfLabels ∧ e.tail = none ∧ ∀ l, l ∈ e.labels ↔ l ∈ xs := by
  obtain ⟨-, rfl⟩ := elaborate_ok_iff.mp h
  cases xs with
  | nil => exact ⟨iff_of_true rfl rfl, ofLabels_none, rfl, fun _ => iff_of_false nofun nofun⟩
  | cons x xs =>
      exact ⟨iff_of_false nofun nofun, ofLabels_closed _, rfl, fun _ => mem_labels_closed⟩

theorem elaborate_congr (h : ∀ name, name ∈ zs ↔ name ∈ xs) {e : Effects} (he : elaborate xs = .ok e) : elaborate zs = .ok e := by
  have hknown : ∀ name ∈ zs, isKnown name = true := fun name hname => (elaborate_ok_iff.mp he).1 name ((h name).mp hname)
  have hnil : zs = [] ↔ xs = [] := by simp only [List.eq_nil_iff_forall_not_mem, h]
  have hzs := elaborate_ok_iff.mpr ⟨hknown, rfl⟩
  obtain ⟨hpure, hrow, htail, hlabels⟩ := ofLabels_elaborate he
  obtain ⟨hpure', hrow', htail', hlabels'⟩ := ofLabels_elaborate hzs
  refine hzs.trans (congrArg Except.ok (hrow'.ext hrow ?_ (fun l => ?_) (htail'.trans htail.symm)))
  · exact Bool.eq_iff_iff.mpr (hpure'.trans (hnil.trans hpure.symm))
  · exact (hlabels' l).trans ((h l).trans (hlabels l).symm)

theorem elaborate_append_ok (ha : elaborate xs = .ok a) (hb : elaborate ys = .ok b) : elaborate (xs ++ ys) = .ok (union a b) := by
  have hknown : ∀ name ∈ xs ++ ys, isKnown name = true :=
    List.forall_mem_append.mpr ⟨(elaborate_ok_iff.mp ha).1, (elaborate_ok_iff.mp hb).1⟩
  have hboth := elaborate_ok_iff.mpr ⟨hknown, rfl⟩
  obtain ⟨hpure, hrow, htail, hlabels⟩ := ofLabels_elaborate hboth
  obtain ⟨hpurea, hrowa, htaila, hlabelsa⟩ := ofLabels_elaborate ha
  obtain ⟨hpureb, hrowb, htailb, hlabelsb⟩ := ofLabels_elaborate hb
  refine hboth.trans (congrArg Except.ok (hrow.ext (hrowa.union hrowb) ?_ (fun l => ?_) ?_))
  · rw [Bool.eq_iff_iff, hpure, isPure_union, Bool.and_eq_true, hpurea, hpureb, List.append_eq_nil_iff]
  · rw [hlabels, mem_labels_union hrowb.ascending, hlabelsa, hlabelsb, List.mem_append]
  · rw [htail, tail_union_eq_none_iff.mpr ⟨htaila, htailb⟩]

theorem elaborate_error_congr {d : Diagnostic} (h : (ys.find? fun name => !isKnown name) = xs.find? fun name => !isKnown name)
    (hx : elaborate xs = .error d) : elaborate ys = .error d := by
  rw [elaborate] at hx ⊢
  rw [h]
  cases hfind : xs.find? fun name => !isKnown name with
  | none => simp [hfind] at hx
  | some unknown => simpa [hfind] using hx

theorem elaborate_append (xs ys : List String) : elaborate (xs ++ ys) = do return union (← elaborate xs) (← elaborate ys) := by
  cases ha : elaborate xs with
  | error d =>
      have hfound : (xs.find? fun name => !isKnown name).isSome = true := by
        obtain ⟨name, hname, hunknown⟩ := elaborate_error_iff.mp ⟨d, ha⟩
        exact List.find?_isSome.mpr ⟨name, hname, by simp [hunknown]⟩
      exact elaborate_error_congr (List.find?_append.trans (Option.or_of_isSome hfound)) ha
  | ok a =>
      cases hb : elaborate ys with
      | ok b => exact elaborate_append_ok ha hb
      | error d =>
          have hnone : (xs.find? fun name => !isKnown name) = none :=
            List.find?_eq_none.mpr fun name hname => by simp [(elaborate_ok_iff.mp ha).1 name hname]
          exact elaborate_error_congr (by rw [List.find?_append, hnone, Option.none_or]) hb

theorem elaborate_laws (xs ys : List String) :
    ((∃ d, elaborate xs = .error d) ↔ ∃ name ∈ xs, isKnown name = false) ∧
    (∀ e, elaborate xs = .ok e → (e.isPure = true ↔ xs = []) ∧ e.OfLabels ∧ e.tail = none ∧ ∀ l, l ∈ e.labels ↔ l ∈ xs) ∧
    (elaborate (xs ++ ys) = do return union (← elaborate xs) (← elaborate ys)) ∧
    (∀ e, elaborate (xs ++ ys) = .ok e ↔ ∃ a b, elaborate xs = .ok a ∧ elaborate ys = .ok b ∧ e = union a b) ∧
    ∀ zs, (∀ name, name ∈ zs ↔ name ∈ xs) → ∀ e, elaborate zs = .ok e ↔ elaborate xs = .ok e := by
  refine ⟨elaborate_error_iff, fun e => ofLabels_elaborate, elaborate_append xs ys, fun e => ?_, fun zs h e => ?_⟩
  · constructor
    · intro h
      rw [elaborate_append] at h
      cases ha : elaborate xs with
      | error d => rw [ha] at h; cases h
      | ok a =>
          cases hb : elaborate ys with
          | error d => rw [ha, hb] at h; cases h
          | ok b =>
              rw [ha, hb] at h
              exact ⟨a, b, rfl, rfl, (Except.ok.inj h).symm⟩
    · rintro ⟨a, b, ha, hb, rfl⟩
      exact elaborate_append_ok ha hb
  · exact ⟨elaborate_congr fun name => (h name).symm, elaborate_congr h⟩

end Elaboration

end RowTyping.Effects
