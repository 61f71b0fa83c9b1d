import RowTyping.OrderedMap

namespace RowTyping.OrderedMap

variable {κ α β : Type}

theorem mem_keys_of_mem {m : OrderedMap κ α} {e : κ × α} (h : e ∈ m) : e.1 ∈ m.keys :=
  List.mem_map_of_mem h

@[simp]
theorem keys_mapValues (f : α → β) (m : OrderedMap κ α) : (m.mapValues f).keys = m.keys := by
  simp [keys, mapValues]

theorem mapValues_congr {f g : α → β} {m : OrderedMap κ α} (h : ∀ e ∈ m, f e.2 = g e.2) :
    m.mapValues f = m.mapValues g := by
  apply List.map_congr_left
  intro e he
  rw [h e he]

theorem insert_ne_nil [Ord κ] (m : OrderedMap κ α) (k : κ) (v : α) : m.insert k v ≠ [] := by
  cases m with
  | nil => exact List.cons_ne_nil _ _
  | cons e m =>
      rw [insert]
      split <;> exact List.cons_ne_nil _ _

theorem merge_eq_nil_iff [Ord κ] {m n : OrderedMap κ α} : m.merge n = [] ↔ m = [] ∧ n = [] := by
  induction n generalizing m with
  | nil => exact (and_iff_left rfl).symm
  | cons e n ih => exact ih.trans (iff_of_false (fun h => insert_ne_nil _ _ _ h.1) fun h => List.cons_ne_nil _ _ h.2)

section Lookup

variable [BEq κ] [LawfulBEq κ] [DecidableEq κ]

theorem mem_of_find? {m : OrderedMap κ α} {k : κ} {v : α} (h : m.find? k = some v) : (k, v) ∈ m := by
  induction m with
  | nil => simp [find?_nil] at h
  | cons e m ih =>
      obtain ⟨k', v'⟩ := e
      rw [find?_cons] at h
      split at h
      next hk =>
        simp only [Option.some.injEq] at h hk
        simp [h, hk]
      next => exact List.mem_cons_of_mem _ (ih h)

theorem mem_keys_iff {m : OrderedMap κ α} {k : κ} : k ∈ m.keys ↔ ∃ v, m.find? k = some v := by
  induction m with
  | nil => simp [keys, find?_nil]
  | cons e m ih =>
      rw [find?_cons]
      by_cases hk : k = e.1
      · simp [hk, keys]
      · simpa [keys, hk] using ih

theorem find?_eq_none_iff {m : OrderedMap κ α} {k : κ} : m.find? k = none ↔ k ∉ m.keys := by
  rw [mem_keys_iff]
  cases m.find? k <;> simp

theorem contains_eq_true_iff {m : OrderedMap κ α} {k : κ} : m.contains k = true ↔ k ∈ m.keys := by
  rw [mem_keys_iff, contains, Option.isSome_iff_exists]

end Lookup

section Order

variable [Ord κ]

instance (m : OrderedMap κ α) : Decidable m.Ascending :=
  inferInstanceAs (Decidable (List.Pairwise _ m))

theorem mapValues_insert (f : α → β) (m : OrderedMap κ α) (k : κ) (v : α) :
    (m.insert k v).mapValues f = (m.mapValues f).insert k (f v) := by
  induction m with
  | nil => rfl
  | cons e m ih =>
      simp only [insert, mapValues, List.map_cons] at ih ⊢
      split <;> simp_all

theorem mapValues_merge (f : α → β) (m n : OrderedMap κ α) :
    (m.merge n).mapValues f = (m.mapValues f).merge (n.mapValues f) := by
  induction n generalizing m with
  | nil => rfl
  | cons e n ih =>
      have h := ih (m.insert e.1 e.2)
      rw [mapValues_insert] at h
      exact h

theorem mapValues_ofList (f : α → β) (entries : List (κ × α)) :
    (ofList entries).mapValues f = ofList (entries.map fun e => (e.1, f e.2)) :=
  mapValues_merge f [] entries

theorem Ascending.mapValues {m : OrderedMap κ α} (f : α → β) (h : m.Ascending) : (m.mapValues f).Ascending :=
  List.pairwise_map.mpr h

theorem Ascending.filter {m : OrderedMap κ α} (p : κ × α → Bool) (h : m.Ascending) :
    Ascending (List.filter p m) :=
  List.Pairwise.filter p h

variable [Std.LawfulEqOrd κ]

theorem mem_merge {m n : OrderedMap κ α} {e : κ × α} (h : e ∈ m.merge n) : e ∈ m ∨ e ∈ n := by
  induction n generalizing m with
  | nil => exact Or.inl h
  | cons f n ih =>
      rcases ih (m := m.insert f.1 f.2) h with hm | hn
      · rcases mem_insert hm with rfl | hm
        · exact Or.inr List.mem_cons_self
        · exact Or.inl hm
      · exact Or.inr (List.mem_cons_of_mem _ hn)

theorem Ascending.not_mem_keys {e : κ × α} {m : OrderedMap κ α} (h : Ascending (e :: m)) : e.1 ∉ m.keys := by
  intro hk
  obtain ⟨f, hf, he⟩ := List.mem_map.mp hk
  have hlt := (List.pairwise_cons.mp h).1 f hf
  rw [he] at hlt
  simp at hlt

theorem Ascending.nodup_keys {m : OrderedMap κ α} (h : m.Ascending) : m.keys.Nodup := by
  refine List.pairwise_map.mpr (h.imp fun hlt heq => ?_)
  rw [heq] at hlt
  simp at hlt

variable [Std.TransOrd κ]

theorem Ascending.merge {m : OrderedMap κ α} (hm : m.Ascending) (n : OrderedMap κ α) : (m.merge n).Ascending := by
  induction n generalizing m with
  | nil => exact hm
  | cons e n ih => exact ih (ascending_insert hm e.1 e.2)

theorem ascending_ofList (entries : List (κ × α)) : (ofList entries).Ascending :=
  Ascending.merge List.Pairwise.nil entries

end Order

section OrderedLookup

variable [Ord κ] [Std.TransOrd κ] [Std.LawfulEqOrd κ] [BEq κ] [LawfulBEq κ] [DecidableEq κ]

omit [Std.TransOrd κ] in
theorem Ascending.find?_of_mem {m : OrderedMap κ α} (hm : m.Ascending) {e : κ × α} (h : e ∈ m) :
    m.find? e.1 = some e.2 := by
  induction m with
  | nil => cases h
  | cons f m ih =>
      rw [find?_cons]
      rcases List.mem_cons.mp h with rfl | h
      · simp
      · have hne : e.1 ≠ f.1 := fun he => hm.not_mem_keys (he ▸ mem_keys_of_mem h)
        rw [if_neg hne]
        exact ih (List.pairwise_cons.mp hm).2 h

omit [Std.TransOrd κ] in
theorem find?_merge (m : OrderedMap κ α) {n : OrderedMap κ α} (hn : n.Ascending) (k : κ) :
    (m.merge n).find? k = (n.find? k).or (m.find? k) := by
  induction n generalizing m with
  | nil => rfl
  | cons e n ih =>
      have h := ih (m.insert e.1 e.2) (List.pairwise_cons.mp hn).2
      have hmerge : m.merge (e :: n) = (m.insert e.1 e.2).merge n := rfl
      rw [hmerge, h, find?_insert, find?_cons]
      by_cases hk : k = e.1
      · have hnone : find? n k = none := find?_eq_none_iff.mpr (hk ▸ hn.not_mem_keys)
        rw [hnone, if_pos hk, if_pos hk]
        rfl
      · rw [if_neg hk, if_neg hk]

omit [Std.TransOrd κ] in
theorem mem_keys_merge {m n : OrderedMap κ α} (hn : n.Ascending) {k : κ} :
    k ∈ (m.merge n).keys ↔ k ∈ m.keys ∨ k ∈ n.keys := by
  simp only [mem_keys_iff, find?_merge m hn]
  cases n.find? k <;> simp

omit [Std.TransOrd κ] in
theorem mem_keys_insert {m : OrderedMap κ α} {k k' : κ} {v : α} : k' ∈ (m.insert k v).keys ↔ k' = k ∨ k' ∈ m.keys := by
  simp only [mem_keys_iff, find?_insert]
  by_cases hk : k' = k <;> simp [hk]

omit [Std.TransOrd κ] in
theorem mem_keys_ofList {entries : List (κ × α)} {k : κ} : k ∈ (ofList entries).keys ↔ k ∈ entries.map Prod.fst := by
  have hfrom (m : OrderedMap κ α) : k ∈ (merge m entries).keys ↔ k ∈ m.keys ∨ k ∈ entries.map Prod.fst := by
    induction entries generalizing m with
    | nil => simp [merge]
    | cons e entries ih =>
        have hmerge : merge m (e :: entries) = merge (m.insert e.1 e.2) entries := rfl
        rw [hmerge, ih, mem_keys_insert, List.map_cons, List.mem_cons, or_left_comm, or_assoc]
  rw [ofList, hfrom]
  exact or_iff_right List.not_mem_nil

omit [Std.TransOrd κ] in
theorem find?_ofList (entries : List (κ × α)) (k : κ) : (ofList entries).find? k = find? entries.reverse k := by
  have hfrom (m : OrderedMap κ α) : (merge m entries).find? k = (find? entries.reverse k).or (m.find? k) := by
    induction entries generalizing m with
    | nil => rfl
    | cons e entries ih =>
        have hmerge : merge m (e :: entries) = merge (m.insert e.1 e.2) entries := rfl
        have happend : find? (entries.reverse ++ [e]) k = (find? entries.reverse k).or (find? [e] k) := List.lookup_append
        rw [hmerge, ih, List.reverse_cons, happend, find?_insert, Option.or_assoc, find?_cons, find?_nil]
        split <;> rfl
  rw [ofList, hfrom, find?_nil, Option.or_none]

omit [Std.TransOrd κ] in
theorem mem_of_find?_ofList {entries : List (κ × α)} {k : κ} {v : α} (h : (ofList entries).find? k = some v) : (k, v) ∈ entries := by
  rw [find?_ofList] at h
  exact List.mem_reverse.mp (mem_of_find? h)

omit [Std.TransOrd κ] in
theorem find?_filter {m : OrderedMap κ α} (hm : m.Ascending) (p : κ → Bool) (k : κ) :
    find? (List.filter (fun e => p e.1) m) k = if p k then m.find? k else none := by
  induction m with
  | nil => simp [find?_nil]
  | cons e m ih =>
      have ih := ih (List.pairwise_cons.mp hm).2
      have hnone : k = e.1 → find? m k = none := fun hk => find?_eq_none_iff.mpr (hk ▸ hm.not_mem_keys)
      rw [List.filter_cons]
      by_cases hp : p e.1 = true
      · rw [if_pos hp, find?_cons, find?_cons, ih]
        by_cases hk : k = e.1 <;> simp_all
      · rw [if_neg hp, find?_cons, ih]
        by_cases hk : k = e.1 <;> simp_all

theorem Ascending.head_eq {m n : OrderedMap κ α} {e f : κ × α} (hm : Ascending (e :: m)) (hn : Ascending (f :: n))
    (h : ∀ k, find? (e :: m) k = find? (f :: n) k) : e = f := by
  have he := h e.1
  have hf := h f.1
  rw [find?_cons, find?_cons, if_pos rfl] at he hf
  by_cases hk : e.1 = f.1
  · rw [if_pos hk] at he
    exact Prod.ext hk (Option.some.inj he)
  · rw [if_neg hk] at he
    rw [if_neg (Ne.symm hk)] at hf
    have hef := (List.pairwise_cons.mp hn).1 _ (mem_of_find? he.symm)
    have hfe := (List.pairwise_cons.mp hm).1 _ (mem_of_find? hf)
    have := Std.TransCmp.lt_trans hef hfe
    simp at this

theorem Ascending.ext {m n : OrderedMap κ α} (hm : m.Ascending) (hn : n.Ascending)
    (h : ∀ k, m.find? k = n.find? k) : m = n := by
  induction m generalizing n with
  | nil =>
      cases n with
      | nil => rfl
      | cons f n =>
          have := h f.1
          simp [find?_nil, find?_cons] at this
  | cons e m ih =>
      cases n with
      | nil =>
          have := h e.1
          simp [find?_nil, find?_cons] at this
      | cons f n =>
          have hef := hm.head_eq hn h
          subst hef
          have hrest : ∀ k, find? m k = find? n k := by
            intro k
            by_cases hk : k = e.1
            · rw [find?_eq_none_iff.mpr (hk ▸ hm.not_mem_keys), find?_eq_none_iff.mpr (hk ▸ hn.not_mem_keys)]
            · have := h k
              rwa [find?_cons, find?_cons, if_neg hk, if_neg hk] at this
          rw [ih (List.pairwise_cons.mp hm).2 (List.pairwise_cons.mp hn).2 hrest]

theorem merge_assoc {l m n : OrderedMap κ α} (hl : l.Ascending) (hm : m.Ascending) (hn : n.Ascending) :
    (l.merge m).merge n = l.merge (m.merge n) := by
  apply Ascending.ext ((hl.merge m).merge n) (hl.merge _)
  intro k
  rw [find?_merge _ hn, find?_merge _ hm, find?_merge _ (hm.merge n), find?_merge _ hn, Option.or_assoc]

theorem nil_merge {m : OrderedMap κ α} (hm : m.Ascending) : merge [] m = m := by
  apply Ascending.ext (Ascending.merge List.Pairwise.nil m) hm
  intro k
  rw [find?_merge _ hm, find?_nil, Option.or_none]

theorem ofList_ofList (entries : List (κ × α)) : ofList (ofList entries : List (κ × α)) = ofList entries :=
  nil_merge (ascending_ofList entries)

end OrderedLookup

end RowTyping.OrderedMap
