namespace RowTyping

/-- Members in ascending order, each once. -/
abbrev OrderedSet (α : Type) := List α

namespace OrderedSet

variable {α : Type}

def insert [Ord α] (s : OrderedSet α) (a : α) : OrderedSet α :=
  match s with
  | [] => [a]
  | b :: rest =>
      match compare a b with
      | .lt => a :: b :: rest
      | .eq => b :: rest
      | .gt => b :: insert rest a

def union [Ord α] (s t : OrderedSet α) : OrderedSet α :=
  t.foldl insert s

def ofList [Ord α] (as : List α) : OrderedSet α :=
  union [] as

def diff [BEq α] (s : OrderedSet α) (removed : List α) : OrderedSet α :=
  s.filter fun a => !removed.contains a

def Ascending [Ord α] (s : OrderedSet α) : Prop :=
  s.Pairwise fun a b => compare a b = .lt

theorem mem_insert [Ord α] [Std.LawfulEqOrd α] {s : OrderedSet α} {a b : α} :
    b ∈ s.insert a ↔ b = a ∨ b ∈ s := by
  induction s with
  | nil => simp [insert]
  | cons c rest ih =>
      simp only [insert]
      split
      · simp
      next h =>
        have : a = c := Std.LawfulEqCmp.compare_eq_iff_eq.mp h
        simp [this]
      · simp only [List.mem_cons, ih]
        grind

theorem mem_union [Ord α] [Std.LawfulEqOrd α] {s t : OrderedSet α} {b : α} :
    b ∈ s.union t ↔ b ∈ s ∨ b ∈ t := by
  unfold union
  induction t generalizing s with
  | nil => simp
  | cons c rest ih =>
      simp only [List.foldl_cons, ih, mem_insert, List.mem_cons]
      grind

theorem mem_ofList [Ord α] [Std.LawfulEqOrd α] {as : List α} {b : α} : b ∈ ofList as ↔ b ∈ as := by
  simp [ofList, mem_union]

theorem mem_diff [BEq α] [LawfulBEq α] {s : OrderedSet α} {removed : List α} {b : α} :
    b ∈ s.diff removed ↔ b ∈ s ∧ b ∉ removed := by
  simp [diff]

theorem ascending_insert [Ord α] [Std.TransOrd α] [Std.LawfulEqOrd α] {s : OrderedSet α}
    (hs : s.Ascending) (a : α) : (s.insert a).Ascending := by
  induction s with
  | nil => simp [insert, Ascending]
  | cons b rest ih =>
      obtain ⟨head, tail⟩ := List.pairwise_cons.mp hs
      simp only [insert]
      split
      next h =>
        refine List.pairwise_cons.mpr ⟨?_, hs⟩
        intro x hx
        rcases List.mem_cons.mp hx with rfl | hx
        · exact h
        · exact Std.TransCmp.lt_trans h (head x hx)
      · exact hs
      next h =>
        refine List.pairwise_cons.mpr ⟨?_, ih tail⟩
        intro x hx
        rcases mem_insert.mp hx with rfl | hx
        · exact Std.OrientedCmp.gt_iff_lt.mp h
        · exact head x hx

theorem ascending_union [Ord α] [Std.TransOrd α] [Std.LawfulEqOrd α] {s : OrderedSet α}
    (hs : s.Ascending) (t : OrderedSet α) : (s.union t).Ascending := by
  unfold union
  induction t generalizing s with
  | nil => exact hs
  | cons c rest ih => exact ih (ascending_insert hs c)

theorem ascending_ofList [Ord α] [Std.TransOrd α] [Std.LawfulEqOrd α] (as : List α) :
    (ofList as).Ascending :=
  ascending_union List.Pairwise.nil as

theorem eq_of_mem_iff [Ord α] [Std.TransOrd α] [Std.LawfulEqOrd α] {s t : OrderedSet α}
    (hs : s.Ascending) (ht : t.Ascending) (h : ∀ a, a ∈ s ↔ a ∈ t) : s = t := by
  induction s generalizing t with
  | nil =>
      cases t with
      | nil => rfl
      | cons b _ => exact absurd ((h b).mpr List.mem_cons_self) List.not_mem_nil
  | cons a rest ih =>
      cases t with
      | nil => exact absurd ((h a).mp List.mem_cons_self) List.not_mem_nil
      | cons b rest' =>
          obtain ⟨ha, hrest⟩ := List.pairwise_cons.mp hs
          obtain ⟨hb, hrest'⟩ := List.pairwise_cons.mp ht
          have irrefl : ∀ x : α, ¬ compare x x = .lt := fun x => by simp
          have asymm : ∀ {x y : α}, compare x y = .lt → ¬ compare y x = .lt := fun hxy hyx =>
            irrefl _ (Std.TransCmp.lt_trans hxy hyx)
          have hab : a = b := by
            rcases List.mem_cons.mp ((h a).mp List.mem_cons_self) with e | m
            · exact e
            · rcases List.mem_cons.mp ((h b).mpr List.mem_cons_self) with e | m'
              · exact e.symm
              · exact absurd (ha b m') (asymm (hb a m))
          subst hab
          congr 1
          refine ih hrest hrest' fun x => ?_
          constructor
          · intro hx
            rcases List.mem_cons.mp ((h x).mp (List.mem_cons_of_mem _ hx)) with e | m
            · exact absurd (ha x hx) (e ▸ irrefl _)
            · exact m
          · intro hx
            rcases List.mem_cons.mp ((h x).mpr (List.mem_cons_of_mem _ hx)) with e | m
            · exact absurd (hb x hx) (e ▸ irrefl _)
            · exact m

end OrderedSet

end RowTyping
