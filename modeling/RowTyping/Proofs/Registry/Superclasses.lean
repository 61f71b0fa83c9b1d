import Mathlib.Data.Finset.Card
import Mathlib.Logic.Relation
import RowTyping.Classes.Registry
import RowTyping.Proofs.Merge

namespace RowTyping

namespace Registry

open Relation

def Inherits (r : Registry) (c s : String) : Prop :=
  s ∈ r.superclassesOf c

instance (r : Registry) (c s : String) : Decidable (r.Inherits c s) :=
  inferInstanceAs (Decidable (_ ∈ _))

def Known (r : Registry) : Prop :=
  ∀ c s, r.Inherits c s → r.hasClass s = true

variable {r : Registry} {c s : String}

theorem inherits_iff : r.Inherits c s ↔ ∃ decl, r.classes.find? c = some decl ∧ s ∈ decl.superclasses := by
  rw [Inherits, superclassesOf]
  cases r.classes.find? c <;> simp

section Widening

def Upward (r : Registry) (set : List String) : Prop :=
  ∀ c ∈ set, ∀ s, r.Inherits c s → s ∈ set

variable {set : OrderedSet String}

theorem mem_widen : s ∈ r.widen set ↔ s ∈ set ∨ ∃ c ∈ set, r.Inherits c s := by
  rw [widen, OrderedSet.mem_union, List.mem_flatMap]
  rfl

theorem Upward.mem_widen (h : r.Upward set) : s ∈ r.widen set ↔ s ∈ set := by
  rw [Registry.mem_widen]
  exact or_iff_left_of_imp fun ⟨c, hc, hs⟩ => h c hc s hs

-- As long as something is left out, a widening adds it.
theorem upward_or_card_le (r : Registry) (set : OrderedSet String) (n : Nat) :
    r.Upward (Nat.repeat r.widen n set) ∨ n ≤ (Nat.repeat r.widen n set).toFinset.card := by
  induction n with
  | zero => exact .inr (Nat.zero_le _)
  | succ n ih =>
      change r.Upward (r.widen (Nat.repeat r.widen n set)) ∨ n + 1 ≤ (r.widen (Nat.repeat r.widen n set)).toFinset.card
      generalize Nat.repeat r.widen n set = reached at ih
      by_cases hup : r.Upward reached
      · refine .inl fun c hc s hs => ?_
        exact hup.mem_widen.mpr (hup c (hup.mem_widen.mp hc) s hs)
      · have hmore : ∃ s ∈ r.widen reached, s ∉ reached := by
          simp only [Upward, not_forall] at hup
          obtain ⟨c, hc, s, hs, hnot⟩ := hup
          exact ⟨s, mem_widen.mpr (.inr ⟨c, hc, hs⟩), hnot⟩
        obtain ⟨s, hs, hnot⟩ := hmore
        have hlt : reached.toFinset ⊂ (r.widen reached).toFinset :=
          Finset.ssubset_iff_subset_ne.mpr ⟨fun x hx => List.mem_toFinset.mpr (mem_widen.mpr (.inl (List.mem_toFinset.mp hx))),
            fun heq => hnot (List.mem_toFinset.mp (heq ▸ List.mem_toFinset.mpr hs))⟩
        exact .inr (Nat.lt_of_le_of_lt (ih.resolve_left hup) (Finset.card_lt_card hlt))

theorem transGen_of_mem_repeat (n : Nat) (h : s ∈ Nat.repeat r.widen n (.ofList (r.superclassesOf c))) :
    TransGen r.Inherits c s := by
  induction n generalizing s with
  | zero => exact .single (OrderedSet.mem_ofList.mp h)
  | succ n ih =>
      rcases mem_widen.mp h with h | ⟨m, hm, hs⟩
      · exact ih h
      · exact (ih hm).tail hs

theorem mem_repeat_of_inherits (n : Nat) (h : r.Inherits c s) : s ∈ Nat.repeat r.widen n (.ofList (r.superclassesOf c)) := by
  induction n with
  | zero => exact OrderedSet.mem_ofList.mpr h
  | succ n ih => exact mem_widen.mpr (.inl ih)

theorem Known.hasClass_of_transGen (h : r.Known) (hs : TransGen r.Inherits c s) : r.hasClass s = true := by
  obtain ⟨m, _, hm⟩ := TransGen.tail'_iff.mp hs
  exact h m s hm

-- A set of classes with as many members as there are classes has them all.
theorem Known.upward_superclassClosure (h : r.Known) (c : String) : r.Upward (r.superclassClosure c) := by
  refine (r.upward_or_card_le (.ofList (r.superclassesOf c)) r.classes.length).elim id fun hcard => ?_
  change r.classes.length ≤ (r.superclassClosure c).toFinset.card at hcard
  have hclasses : ∀ s, r.hasClass s = true → s ∈ r.classes.keys.toFinset :=
    fun s hs => List.mem_toFinset.mpr (OrderedMap.contains_eq_true_iff.mp hs)
  have hsubset : (r.superclassClosure c).toFinset ⊆ r.classes.keys.toFinset :=
    fun s hs => hclasses s (h.hasClass_of_transGen (transGen_of_mem_repeat _ (List.mem_toFinset.mp hs)))
  have hkeys : r.classes.keys.toFinset.card ≤ r.classes.length :=
    (List.toFinset_card_le _).trans_eq (List.length_map _)
  have hall := Finset.eq_of_subset_of_card_le hsubset (hkeys.trans hcard)
  intro m _ s hs
  exact List.mem_toFinset.mp (hall ▸ hclasses s (h m s hs))

theorem Known.mem_superclassClosure_iff (h : r.Known) : s ∈ r.superclassClosure c ↔ TransGen r.Inherits c s := by
  refine ⟨transGen_of_mem_repeat _, fun hs => ?_⟩
  induction hs with
  | single hs => exact mem_repeat_of_inherits _ hs
  | tail _ hs ih => exact h.upward_superclassClosure c _ ih _ hs

theorem ascending_superclassClosure (r : Registry) (c : String) : OrderedSet.Ascending (r.superclassClosure c) := by
  rw [superclassClosure]
  induction r.classes.length with
  | zero => exact OrderedSet.ascending_ofList _
  | succ n ih => exact OrderedSet.ascending_union ih _

end Widening

section Search

abbrev Frontier := OrderedSet String × List String

def discover (f : Frontier) (s : String) : Frontier :=
  if s ∈ f.1 then f else (f.1.insert s, s :: f.2)

variable {f : Frontier} {ss : List String}

theorem foldl_discover_of_subset (h : ∀ s ∈ ss, s ∈ f.1) : ss.foldl discover f = f := by
  induction ss with
  | nil => rfl
  | cons s ss ih =>
      obtain ⟨hs, hss⟩ := List.forall_mem_cons.mp h
      rw [List.foldl_cons, discover, if_pos hs, ih hss]

theorem mem_found_discover : s ∈ (discover f c).1 ↔ s ∈ f.1 ∨ s = c := by
  rw [discover]
  split
  next h => exact ⟨.inl, fun hs => hs.elim id fun heq => heq ▸ h⟩
  next => exact OrderedSet.mem_insert.trans or_comm

theorem mem_found_foldl : s ∈ (ss.foldl discover f).1 ↔ s ∈ f.1 ∨ s ∈ ss := by
  induction ss generalizing f with
  | nil => simp
  | cons c ss ih => rw [List.foldl_cons, ih, mem_found_discover, List.mem_cons, or_assoc]

theorem mem_stack_foldl : s ∈ (ss.foldl discover f).2 ↔ s ∈ f.2 ∨ s ∈ ss ∧ s ∉ f.1 := by
  induction ss generalizing f with
  | nil => simp
  | cons c ss ih =>
      have hstack : s ∈ (discover f c).2 ↔ s ∈ f.2 ∨ s = c ∧ s ∉ f.1 := by
        rw [discover]
        split <;> grind
      rw [List.foldl_cons, ih, hstack, mem_found_discover, List.mem_cons]
      grind

theorem ascending_found_foldl (h : f.1.Ascending) : (ss.foldl discover f).1.Ascending := by
  induction ss generalizing f with
  | nil => exact h
  | cons c ss ih =>
      apply ih
      rw [discover]
      split
      next => exact h
      next => exact OrderedSet.ascending_insert h c

def superclassNames (r : Registry) : Finset String :=
  (r.classes.values.flatMap ClassDecl.superclasses).toFinset

theorem mem_superclassNames (h : r.Inherits c s) : s ∈ r.superclassNames := by
  obtain ⟨decl, hdecl, hs⟩ := inherits_iff.mp h
  have hmem : decl ∈ r.classes.values := List.mem_map_of_mem (OrderedMap.mem_of_find? hdecl)
  exact List.mem_toFinset.mpr (List.mem_flatMap.mpr ⟨decl, hmem, hs⟩)

def visit (r : Registry) (c : String) (f : Frontier) : Frontier :=
  (r.superclassesOf c).foldl discover f

-- Either something new is found, or the stack is one class shorter than before.
theorem visit_decreases (r : Registry) (c : String) (found : OrderedSet String) (stack : List String) :
    Prod.Lex (· < ·) (· < ·)
      ((r.superclassNames \ (r.visit c (found, stack)).1.toFinset).card, (r.visit c (found, stack)).2.length)
      ((r.superclassNames \ found.toFinset).card, (c :: stack).length) := by
  by_cases hall : ∀ s ∈ r.superclassesOf c, s ∈ found
  · rw [visit, foldl_discover_of_subset hall]
    exact .right _ (Nat.lt_succ_self _)
  · simp only [not_forall] at hall
    obtain ⟨s, hs, hnew⟩ := hall
    refine .left _ _ (Finset.card_lt_card ?_)
    refine Finset.ssubset_iff_of_subset (fun x hx => ?_) |>.mpr ⟨s, ?_, fun hmem => ?_⟩
    · obtain ⟨hname, hnot⟩ := Finset.mem_sdiff.mp hx
      exact Finset.mem_sdiff.mpr ⟨hname, fun hfound => hnot (List.mem_toFinset.mpr (mem_found_foldl.mpr
        (.inl (List.mem_toFinset.mp hfound))))⟩
    · exact Finset.mem_sdiff.mpr ⟨mem_superclassNames hs, fun hfound => hnew (List.mem_toFinset.mp hfound)⟩
    · exact (Finset.mem_sdiff.mp hmem).2 (List.mem_toFinset.mpr (mem_found_foldl.mpr (.inr hs)))

def search (r : Registry) : Frontier → OrderedSet String
  | (found, []) => found
  | (found, c :: stack) => r.search (r.visit c (found, stack))
termination_by f => ((r.superclassNames \ f.1.toFinset).card, f.2.length)
decreasing_by exact r.visit_decreases c found stack

structure Searching (r : Registry) (c : String) (f : Frontier) : Prop where
  ascending : f.1.Ascending
  found : ∀ s ∈ f.1, TransGen r.Inherits c s
  stack : ∀ m ∈ f.2, m = c ∨ m ∈ f.1
  visited : ∀ m, m = c ∨ m ∈ f.1 → m ∈ f.2 ∨ ∀ s, r.Inherits m s → s ∈ f.1

theorem searching_start (r : Registry) (c : String) : r.Searching c ([], [c]) where
  ascending := .nil
  found := List.forall_mem_nil _
  stack _ hm := .inl (List.mem_singleton.mp hm)
  visited _ hm := .inl (List.mem_singleton.mpr (hm.resolve_right List.not_mem_nil))

theorem Searching.visit {m : String} {found : OrderedSet String} {stack : List String}
    (h : r.Searching c (found, m :: stack)) : r.Searching c (r.visit m (found, stack)) := by
  have hm : ReflTransGen r.Inherits c m := by
    rcases h.stack m List.mem_cons_self with rfl | hm
    · exact .refl
    · exact (h.found m hm).to_reflTransGen
  refine ⟨ascending_found_foldl h.ascending, fun s hs => ?_, fun x hx => ?_, fun x hx => ?_⟩
  · rcases mem_found_foldl.mp hs with hs | hs
    · exact h.found s hs
    · exact TransGen.tail' hm hs
  · rcases mem_stack_foldl.mp hx with hx | ⟨hx, -⟩
    · exact (h.stack x (List.mem_cons_of_mem _ hx)).imp_right fun hx => mem_found_foldl.mpr (.inl hx)
    · exact .inr (mem_found_foldl.mpr (.inr hx))
  · by_cases hnew : x = c ∨ x ∈ found
    · rcases h.visited x hnew with hstack | hdone
      · rcases List.mem_cons.mp hstack with rfl | hstack
        · exact .inr fun s hs => mem_found_foldl.mpr (.inr hs)
        · exact .inl (mem_stack_foldl.mpr (.inl hstack))
      · exact .inr fun s hs => mem_found_foldl.mpr (.inl (hdone s hs))
    · obtain ⟨hne, hnot⟩ := not_or.mp hnew
      have hmem := (mem_found_foldl.mp (hx.resolve_left hne)).resolve_left hnot
      exact .inl (mem_stack_foldl.mpr (.inr ⟨hmem, hnot⟩))

theorem Searching.search {f : Frontier} (h : r.Searching c f) :
    (r.search f).Ascending ∧ ∀ s, s ∈ r.search f ↔ TransGen r.Inherits c s := by
  induction f using search.induct (r := r) with
  | case1 found =>
      rw [Registry.search]
      refine ⟨h.ascending, fun s => ⟨h.found s, fun hs => ?_⟩⟩
      have hdone : ∀ m, m = c ∨ m ∈ found → ∀ s, r.Inherits m s → s ∈ found :=
        fun m hm => (h.visited m hm).resolve_left List.not_mem_nil
      induction hs with
      | single hs => exact hdone c (.inl rfl) _ hs
      | tail _ hs ih => exact hdone _ (.inr ih) _ hs
  | case2 found m stack ih =>
      rw [Registry.search]
      exact ih h.visit

theorem Known.search_eq (h : r.Known) (c : String) : r.search ([], [c]) = r.superclassClosure c := by
  obtain ⟨hascending, hmem⟩ := (r.searching_start c).search
  exact OrderedSet.eq_of_mem_iff hascending (r.ascending_superclassClosure c)
    fun s => (hmem s).trans h.mem_superclassClosure_iff.symm

end Search

end Registry

end RowTyping
