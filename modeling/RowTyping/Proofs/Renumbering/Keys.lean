import Mathlib.Data.List.Basic
import RowTyping.OrderedSet
import RowTyping.Proofs.Merge

namespace RowTyping

def KeepsOrder {κ κ' : Type} [Ord κ] [Ord κ'] (f : κ → κ') : Prop :=
  ∀ a b, compare (f a) (f b) = compare a b

namespace OrderedMap

variable {κ κ' α β : Type} {f : κ → κ'} {g : α → β}

def mapBoth (f : κ → κ') (g : α → β) (m : OrderedMap κ α) : OrderedMap κ' β :=
  m.map fun e => (f e.1, g e.2)

@[simp]
theorem keys_mapBoth (m : OrderedMap κ α) : (m.mapBoth f g).keys = m.keys.map f := by
  simp [mapBoth, keys]

section Order

variable [Ord κ] [Ord κ'] (hf : KeepsOrder f)

include hf

theorem mapBoth_insert (m : OrderedMap κ α) (k : κ) (v : α) :
    (m.insert k v).mapBoth f g = (m.mapBoth f g).insert (f k) (g v) := by
  induction m with
  | nil => rfl
  | cons e m ih =>
      simp only [insert, mapBoth, List.map_cons, hf k e.1] at ih ⊢
      split <;> simp_all

theorem mapBoth_merge (m n : OrderedMap κ α) : (m.merge n).mapBoth f g = (m.mapBoth f g).merge (n.mapBoth f g) := by
  induction n generalizing m with
  | nil => rfl
  | cons e n ih =>
      have h := ih (m.insert e.1 e.2)
      rw [mapBoth_insert hf] at h
      exact h

theorem mapBoth_ofList (entries : List (κ × α)) :
    (ofList entries).mapBoth f g = ofList (entries.map fun e => (f e.1, g e.2)) :=
  mapBoth_merge hf [] entries

end Order

section Lookup

variable [BEq κ] [LawfulBEq κ] [DecidableEq κ] [BEq κ'] [LawfulBEq κ'] [DecidableEq κ'] (hf : f.Injective)

include hf

theorem find?_mapBoth (m : OrderedMap κ α) (k : κ) : (m.mapBoth f g).find? (f k) = (m.find? k).map g := by
  induction m with
  | nil => rfl
  | cons e m ih =>
      change find? ((f e.1, g e.2) :: mapBoth f g m) (f k) = _
      rw [find?_cons, find?_cons, ih]
      by_cases hk : k = e.1
      · rw [if_pos (congrArg f hk), if_pos hk, Option.map_some]
      · rw [if_neg fun h => hk (hf h), if_neg hk]

omit [DecidableEq κ] [DecidableEq κ'] in
theorem mapBoth_erase (m : OrderedMap κ α) (k : κ) : (m.erase k).mapBoth f g = (m.mapBoth f g).erase (f k) := by
  have hne (e : κ × α) : (f e.1 != f k) = (e.1 != k) := by
    rw [Bool.eq_iff_iff, bne_iff_ne, bne_iff_ne, hf.ne_iff]
  simp only [mapBoth, erase, List.filter_map, Function.comp_def, hne]

end Lookup

end OrderedMap

namespace OrderedSet

variable {α β : Type} {f : α → β}

section Order

variable [Ord α] [Ord β] (hf : KeepsOrder f)

include hf

theorem map_insert (s : OrderedSet α) (a : α) : (s.insert a).map f = insert (s.map f) (f a) := by
  induction s with
  | nil => rfl
  | cons b s ih =>
      simp only [insert, List.map_cons, hf a b]
      split <;> simp_all

theorem map_union (s t : OrderedSet α) : (s.union t).map f = union (s.map f) (t.map f) := by
  induction t generalizing s with
  | nil => rfl
  | cons b t ih =>
      have h := ih (s.insert b)
      rw [map_insert hf] at h
      exact h

theorem map_ofList (as : List α) : (ofList as).map f = ofList (as.map f) :=
  map_union hf [] as

end Order

end OrderedSet

theorem map_map_congr {α β γ : Type} {f : α → β} {g : β → γ} {k : α → γ} {as : List α} (h : ∀ a ∈ as, g (f a) = k a) :
    (as.map f).map g = as.map k := by
  rw [List.map_map]
  exact List.map_congr_left h

theorem map_map_comm {α β β' γ : Type} {f : α → β} {g : β → γ} {f' : α → β'} {g' : β' → γ} {as : List α}
    (h : ∀ a ∈ as, g (f a) = g' (f' a)) : (as.map f).map g = (as.map f').map g' :=
  (map_map_congr h).trans List.map_map.symm

section Lists

variable {α β : Type} [BEq α] [LawfulBEq α] [BEq β] [LawfulBEq β] {f : α → β} (hf : f.Injective)

include hf

theorem contains_map_of_injective (as : List α) (a : α) : (as.map f).contains (f a) = as.contains a := by
  rw [Bool.eq_iff_iff, List.contains_iff_mem, List.contains_iff_mem, List.mem_map_of_injective hf]

theorem filter_contains_map (as bs : List α) :
    (as.map f).filter (fun b => !(bs.map f).contains b) = (as.filter fun a => !bs.contains a).map f := by
  simp only [List.filter_map, Function.comp_def, contains_map_of_injective hf]

theorem eraseDups_map (as : List α) : (as.map f).eraseDups = as.eraseDups.map f := by
  induction h : as.length using Nat.strongRecOn generalizing as with
  | ind n ih =>
      cases as with
      | nil => rfl
      | cons a as =>
          have hlength : (as.filter fun b => !b == a).length < n :=
            h ▸ Nat.lt_succ_of_le (List.length_filter_le _ as)
          rw [List.map_cons, List.eraseDups_cons, List.eraseDups_cons, List.map_cons, ← ih _ hlength _ rfl, List.filter_map]
          simp only [Function.comp_def, hf.beq_eq]

end Lists

end RowTyping
