namespace RowTyping

/-- Entries in ascending order of their keys. -/
abbrev OrderedMap (κ α : Type) := List (κ × α)

namespace OrderedMap

variable {κ α β : Type}

def find? [BEq κ] (m : OrderedMap κ α) (k : κ) : Option α :=
  List.lookup k m

def contains [BEq κ] (m : OrderedMap κ α) (k : κ) : Bool :=
  (m.find? k).isSome

def keys (m : OrderedMap κ α) : List κ :=
  m.map Prod.fst

def values (m : OrderedMap κ α) : List α :=
  m.map Prod.snd

def mapValues (f : α → β) (m : OrderedMap κ α) : OrderedMap κ β :=
  m.map fun e => (e.1, f e.2)

def insert [Ord κ] (m : OrderedMap κ α) (k : κ) (v : α) : OrderedMap κ α :=
  match m with
  | [] => [(k, v)]
  | (k', v') :: rest =>
      match compare k k' with
      | .lt => (k, v) :: (k', v') :: rest
      | .eq => (k, v) :: rest
      | .gt => (k', v') :: insert rest k v

def erase [BEq κ] (m : OrderedMap κ α) (k : κ) : OrderedMap κ α :=
  m.filter fun e => e.1 != k

def merge [Ord κ] (m n : OrderedMap κ α) : OrderedMap κ α :=
  n.foldl (fun acc e => acc.insert e.1 e.2) m

def ofList [Ord κ] (entries : List (κ × α)) : OrderedMap κ α :=
  merge [] entries

def Ascending [Ord κ] (m : OrderedMap κ α) : Prop :=
  m.Pairwise fun a b => compare a.1 b.1 = .lt

theorem find?_nil [BEq κ] (k : κ) : find? ([] : OrderedMap κ α) k = none := rfl

theorem find?_cons [BEq κ] [LawfulBEq κ] [DecidableEq κ] (e : κ × α) (m : OrderedMap κ α) (k : κ) :
    find? (e :: m) k = if k = e.1 then some e.2 else find? m k := by
  obtain ⟨k', v⟩ := e
  simp only [find?, List.lookup_cons]
  by_cases h : k = k'
  · simp [h]
  · have : (k == k') = false := by simpa using h
    simp [this, h]

theorem find?_insert [Ord κ] [Std.LawfulEqOrd κ] [BEq κ] [LawfulBEq κ] [DecidableEq κ]
    (m : OrderedMap κ α) (k : κ) (v : α) (k' : κ) :
    (m.insert k v).find? k' = if k' = k then some v else m.find? k' := by
  induction m with
  | nil => simp [insert, find?_cons]
  | cons e rest ih =>
      simp only [insert]
      split
      · simp [find?_cons]
      next h =>
        have : k = e.1 := Std.LawfulEqCmp.compare_eq_iff_eq.mp h
        by_cases hk : k' = k <;> simp_all [find?_cons]
      next h =>
        have hne : ¬ k = e.1 := by
          intro he
          simp [he, Std.ReflCmp.compare_self] at h
        by_cases hk : k' = k
        · subst hk; simp [find?_cons, ih, hne]
        · simp [find?_cons, ih, hk]

theorem find?_mapValues [BEq κ] (f : α → β) (m : OrderedMap κ α) (k : κ) :
    (m.mapValues f).find? k = (m.find? k).map f := by
  induction m with
  | nil => rfl
  | cons e rest ih =>
      obtain ⟨k', v⟩ := e
      simp only [find?, mapValues, List.map_cons, List.lookup_cons] at ih ⊢
      split <;> simp_all

theorem find?_erase [BEq κ] [LawfulBEq κ] [DecidableEq κ] (m : OrderedMap κ α) (k k' : κ) :
    (m.erase k).find? k' = if k' = k then none else m.find? k' := by
  induction m with
  | nil => simp [erase, find?_nil]
  | cons e rest ih =>
      by_cases he : e.1 = k
      · have : erase (e :: rest) k = erase rest k := by simp [erase, he]
        rw [this, ih, find?_cons]
        by_cases hk : k' = k <;> simp_all
      · have : erase (e :: rest) k = e :: erase rest k := by simp [erase, he]
        rw [this, find?_cons, ih, find?_cons]
        by_cases hk : k' = k
        · subst hk; simp [Ne.symm he]
        · simp [hk]

theorem mem_keys_of_find? [BEq κ] [LawfulBEq κ] [DecidableEq κ] {m : OrderedMap κ α} {k : κ} {v : α}
    (h : m.find? k = some v) : k ∈ m.keys := by
  induction m with
  | nil => simp [find?_nil] at h
  | cons e rest ih =>
      rw [find?_cons] at h
      split at h
      next hk => simp [keys, hk]
      next => exact List.mem_cons_of_mem _ (ih h)

theorem mem_insert [Ord κ] [Std.LawfulEqOrd κ] {m : OrderedMap κ α} {k : κ} {v : α} {e : κ × α}
    (h : e ∈ m.insert k v) : e = (k, v) ∨ e ∈ m := by
  induction m with
  | nil => simpa [insert] using h
  | cons f rest ih =>
      simp only [insert] at h
      split at h <;> simp only [List.mem_cons] at h ⊢ <;> grind

theorem ascending_insert [Ord κ] [Std.TransOrd κ] [Std.LawfulEqOrd κ] {m : OrderedMap κ α}
    (hm : m.Ascending) (k : κ) (v : α) : (m.insert k v).Ascending := by
  induction m with
  | nil => simp [insert, Ascending]
  | cons e rest ih =>
      obtain ⟨head, tail⟩ := List.pairwise_cons.mp hm
      simp only [insert]
      split
      next h =>
        refine List.pairwise_cons.mpr ⟨?_, hm⟩
        intro x hx
        rcases List.mem_cons.mp hx with rfl | hx
        · exact h
        · exact Std.TransCmp.lt_trans h (head x hx)
      next h =>
        have : k = e.1 := Std.LawfulEqCmp.compare_eq_iff_eq.mp h
        exact List.pairwise_cons.mpr ⟨fun x hx => this ▸ head x hx, tail⟩
      next h =>
        refine List.pairwise_cons.mpr ⟨?_, ih tail⟩
        intro x hx
        rcases mem_insert hx with rfl | hx
        · exact Std.OrientedCmp.gt_iff_lt.mp h
        · exact head x hx

end OrderedMap

end RowTyping
