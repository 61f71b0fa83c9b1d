import Mathlib.Data.List.Induction
import RowTyping.Proofs.Inference.Scopes

namespace RowTyping.Scopes

inductive Op (α : Type) where
  | push (item : α)
  | pushScope
  | popScope (commit : Bool)
  | drain
  deriving Repr

namespace Op

variable {α : Type}

def item? : Op α → Option α
  | .push item => some item
  | _ => none

instance decidableEqPushScope : (op : Op α) → Decidable (op = .pushScope)
  | .pushScope => isTrue rfl
  | .push _ | .popScope _ | .drain => isFalse nofun

instance decidableEqDropScope : (op : Op α) → Decidable (op = .popScope false)
  | .popScope false => isTrue rfl
  | .popScope true | .push _ | .pushScope | .drain => isFalse nofun

instance decidableEqDrain : (op : Op α) → Decidable (op = .drain)
  | .drain => isTrue rfl
  | .push _ | .pushScope | .popScope _ => isFalse nofun

end Op

variable {α : Type}

def perform (s : Scopes α) : Op α → Scopes α
  | .push item => s.push item
  | .pushScope => s.pushScope
  | .popScope commit => (s.popScope commit).2
  | .drain => s.drain.2

def after (ops : List (Op α)) : Scopes α :=
  ops.foldl perform empty

section Nesting

variable {n m k : Nat} {xs ys zs : List (Op α)} {commit : Bool}

/-- How many scopes are open behind a stretch of operations before which there are `n`; none if it closes one more, as a drain does. -/
def nesting : Nat → List (Op α) → Option Nat
  | n, [] => some n
  | n, .push _ :: ops => nesting n ops
  | n, .pushScope :: ops => nesting (n + 1) ops
  | 0, .popScope _ :: _ => none
  | n + 1, .popScope _ :: ops => nesting n ops
  | _, .drain :: _ => none
termination_by structural _ ops => ops

def Balanced (ops : List (Op α)) : Prop :=
  nesting 0 ops = some 0

instance (ops : List (Op α)) : Decidable (Balanced ops) :=
  inferInstanceAs (Decidable (_ = _))

theorem nesting_append (n : Nat) (xs ys : List (Op α)) : nesting n (xs ++ ys) = (nesting n xs).bind (nesting · ys) := by
  induction xs generalizing n with
  | nil => rfl
  | cons op xs ih =>
      cases op with
      | push | pushScope => exact ih _
      | drain => rfl
      | popScope => cases n <;> [rfl; exact ih _]

theorem nesting_add (h : nesting n xs = some m) (k : Nat) : nesting (n + k) xs = some (m + k) := by
  induction xs generalizing n with
  | nil => exact congrArg (Option.map (· + k)) h
  | cons op xs ih =>
      cases op with
      | push => exact ih h
      | pushScope =>
          rw [nesting, Nat.add_right_comm]
          exact ih h
      | drain => cases h
      | popScope =>
          cases n with
          | zero => cases h
          | succ n =>
              rw [Nat.add_right_comm, nesting]
              exact ih h

theorem ne_drain_of_nesting (h : (nesting n xs).isSome) : ∀ op ∈ xs, op ≠ .drain := by
  rintro _ hop rfl
  obtain ⟨before, after, rfl⟩ := List.append_of_mem hop
  rw [nesting_append] at h
  cases hbefore : nesting n before <;> simp [hbefore, nesting] at h

theorem balanced_nil : Balanced ([] : List (Op α)) :=
  rfl

theorem balanced_push (item : α) : Balanced [.push item] :=
  rfl

theorem Balanced.append (hx : Balanced xs) (hy : Balanced ys) : Balanced (xs ++ ys) := by
  rw [Balanced, nesting_append, hx]
  exact hy

theorem Balanced.scope (h : Balanced xs) (commit : Bool) : Balanced (.pushScope :: xs ++ [.popScope commit]) := by
  rw [Balanced, List.cons_append, nesting, nesting_append, nesting_add h 1]
  rfl

-- A pop that comes back to a scope of the stretch cannot close one from before it.
theorem not_balanced_of_nesting (h : (nesting 0 (ys ++ .popScope commit :: zs)).isSome) : ¬ Balanced (xs ++ ys) := by
  intro hbalanced
  rw [Balanced, nesting_append] at hbalanced
  obtain ⟨k, -, hk⟩ := Option.bind_eq_some_iff.mp hbalanced
  rw [nesting_append] at h
  cases hy : nesting 0 ys with
  | none => simp [hy] at h
  | some m =>
      have hm := nesting_add hy k
      rw [Nat.zero_add] at hm
      obtain ⟨rfl, -⟩ := Nat.add_eq_zero_iff.mp (Option.some.inj (hm.symm.trans hk))
      simp [hy, nesting] at h

end Nesting

section Moments

structure Moment (α : Type) where
  before : List (Op α)
  op : Op α
  after : List (Op α)

def moments : List (Op α) → List (Moment α)
  | [] => []
  | op :: ops => ⟨[], op, ops⟩ :: (moments ops).map fun m => { m with before := op :: m.before }

variable {xs ys ops : List (Op α)} {m : Moment α}

theorem eq_of_mem_moments (h : m ∈ moments ops) : ops = m.before ++ m.op :: m.after := by
  induction ops generalizing m with
  | nil => cases h
  | cons op ops ih =>
      rcases List.mem_cons.mp h with rfl | h
      · rfl
      · obtain ⟨m, hm, rfl⟩ := List.mem_map.mp h
        exact congrArg (op :: ·) (ih hm)

theorem mem_moments (before : List (Op α)) (op : Op α) (after : List (Op α)) :
    ⟨before, op, after⟩ ∈ moments (before ++ op :: after) := by
  induction before with
  | nil => exact List.mem_cons_self
  | cons op' before ih => exact List.mem_cons_of_mem _ (List.mem_map_of_mem ih)

namespace Moment

def preceded (xs : List (Op α)) (m : Moment α) : Moment α :=
  { m with before := xs ++ m.before }

def followed (ys : List (Op α)) (m : Moment α) : Moment α :=
  { m with after := m.after ++ ys }

end Moment

theorem moments_append (xs ys : List (Op α)) :
    moments (xs ++ ys) = (moments xs).map (.followed ys) ++ (moments ys).map (.preceded xs) := by
  induction xs with
  | nil => exact (List.map_id _).symm
  | cons op xs ih =>
      simp only [List.cons_append, moments, ih, List.map_cons, List.map_append, List.map_map]
      rfl

theorem mem_moments_append : m ∈ moments (xs ++ ys) ↔ (∃ m' ∈ moments xs, m'.followed ys = m) ∨ ∃ m' ∈ moments ys, m'.preceded xs = m := by
  rw [moments_append, List.mem_append, List.mem_map, List.mem_map]

theorem mem_moments_concat {op : Op α} (h : m ∈ moments (ops ++ [op])) : (∃ m' ∈ moments ops, m'.followed [op] = m) ∨ m.op = op := by
  refine (mem_moments_append.mp h).imp_right ?_
  rintro ⟨m', hm', rfl⟩
  obtain rfl := List.mem_singleton.mp hm'
  rfl

namespace Moment

/-- A scope around the operation was dropped: pushed before it, and closed after it by a pop that does not commit. -/
def Discarded (m : Moment α) : Prop :=
  ∃ opening ∈ moments m.before, ∃ closing ∈ moments m.after,
    opening.op = .pushScope ∧ closing.op = .popScope false ∧ Balanced (opening.after ++ m.op :: closing.before)

/-- No drain came since, and no scope around the operation was dropped. -/
def Kept (m : Moment α) : Prop :=
  (∀ op ∈ m.after, op ≠ .drain) ∧ ¬ m.Discarded

instance (m : Moment α) : Decidable m.Discarded :=
  inferInstanceAs (Decidable (∃ opening ∈ moments m.before, ∃ closing ∈ moments m.after, _))

instance (m : Moment α) : Decidable m.Kept :=
  inferInstanceAs (Decidable ((∀ op ∈ m.after, op ≠ .drain) ∧ ¬ m.Discarded))

end Moment

def kept (ops : List (Op α)) : List α :=
  ((moments ops).filter fun m => m.Kept).filterMap fun m => m.op.item?

def Flat (ops : List (Op α)) : Prop :=
  ∀ m ∈ moments ops, m.op = .pushScope → nesting 0 m.after = none

instance (ops : List (Op α)) : Decidable (Flat ops) :=
  inferInstanceAs (Decidable (∀ m ∈ moments ops, _))

def Drops (xs ys : List (Op α)) : Prop :=
  ∃ opening ∈ moments xs, ∃ closing ∈ moments ys,
    opening.op = .pushScope ∧ closing.op = .popScope false ∧ Balanced (opening.after ++ closing.before)

theorem discarded_followed_iff (h : ¬ Drops xs ys) (hm : m ∈ moments xs) : (m.followed ys).Discarded ↔ m.Discarded := by
  constructor
  · rintro ⟨opening, hopening, closing, hclosing, hpush, hpop, hbalanced⟩
    rcases mem_moments_append.mp hclosing with ⟨closing', hclosing', rfl⟩ | ⟨closing', hclosing', rfl⟩
    · exact ⟨opening, hopening, closing', hclosing', hpush, hpop, hbalanced⟩
    · refine absurd ⟨opening.followed (m.op :: m.after), ?_, closing', hclosing', hpush, hpop, ?_⟩ h
      · rw [eq_of_mem_moments hm]
        exact mem_moments_append.mpr (.inl ⟨opening, hopening, rfl⟩)
      · simpa [Moment.followed, Moment.preceded] using hbalanced
  · rintro ⟨opening, hopening, closing, hclosing, hpush, hpop, hbalanced⟩
    exact ⟨opening, hopening, closing.followed ys, mem_moments_append.mpr (.inl ⟨closing, hclosing, rfl⟩), hpush, hpop, hbalanced⟩

theorem discarded_preceded_iff (h : ¬ Drops xs ys) (hm : m ∈ moments ys) : (m.preceded xs).Discarded ↔ m.Discarded := by
  constructor
  · rintro ⟨opening, hopening, closing, hclosing, hpush, hpop, hbalanced⟩
    rcases mem_moments_append.mp hopening with ⟨opening', hopening', rfl⟩ | ⟨opening', hopening', rfl⟩
    · refine absurd ⟨opening', hopening', closing.preceded (m.before ++ [m.op]), ?_, hpush, hpop, ?_⟩ h
      · rw [eq_of_mem_moments hm, List.append_cons]
        exact mem_moments_append.mpr (.inr ⟨closing, hclosing, rfl⟩)
      · simpa [Moment.followed, Moment.preceded] using hbalanced
    · exact ⟨opening', hopening', closing, hclosing, hpush, hpop, hbalanced⟩
  · rintro ⟨opening, hopening, closing, hclosing, hpush, hpop, hbalanced⟩
    exact ⟨opening.preceded xs, mem_moments_append.mpr (.inr ⟨opening, hopening, rfl⟩), closing, hclosing, hpush, hpop, hbalanced⟩

theorem kept_append (h : ¬ Drops xs ys) (hdrain : ∀ op ∈ ys, op ≠ .drain) : kept (xs ++ ys) = kept xs ++ kept ys := by
  have hxs : ∀ m ∈ moments xs, decide (m.followed ys).Kept = decide m.Kept := by
    refine fun m hm => decide_eq_decide.mpr (and_congr ?_ (not_congr (discarded_followed_iff h hm)))
    simp only [Moment.followed, List.mem_append, or_imp, forall_and]
    exact and_iff_left hdrain
  have hys : ∀ m ∈ moments ys, decide (m.preceded xs).Kept = decide m.Kept := fun m hm =>
    decide_eq_decide.mpr (and_congr Iff.rfl (not_congr (discarded_preceded_iff h hm)))
  simp only [kept, moments_append, List.filter_append, List.filterMap_append, List.filter_map, List.filterMap_map,
    Function.comp_def]
  rw [List.filter_congr hxs, List.filter_congr hys]
  rfl

theorem kept_append_of_nesting (h : (nesting 0 ys).isSome) : kept (xs ++ ys) = kept xs ++ kept ys := by
  refine kept_append ?_ (ne_drain_of_nesting h)
  rintro ⟨opening, -, closing, hclosing, -, hpop, hbalanced⟩
  obtain ⟨before, op, after⟩ := closing
  subst hpop
  rw [eq_of_mem_moments hclosing] at h
  exact not_balanced_of_nesting h hbalanced

theorem kept_push (item : α) : kept [.push item] = [item] := by
  have hkept : (⟨[], .push item, []⟩ : Moment α).Kept := ⟨nofun, fun ⟨_, hopening, _⟩ => nomatch hopening⟩
  simp [kept, moments, hkept, Op.item?]

-- A pop leaves what is kept if it commits, and also if no scope is open.
theorem kept_popScope {commit : Bool} (h : commit = true ∨ Flat ops) : kept (ops ++ [.popScope commit]) = kept ops := by
  have hdrops : ¬ Drops ops [.popScope commit] := by
    rintro ⟨opening, hopening, closing, hclosing, hpush, hpop, hbalanced⟩
    obtain rfl := List.mem_singleton.mp hclosing
    rcases h with rfl | h
    · cases hpop
    · rw [List.append_nil, Balanced, h opening hopening hpush] at hbalanced
      cases hbalanced
  have hnone : kept [(.popScope commit : Op α)] = [] := by simp [kept, moments, Op.item?]
  rw [kept_append hdrops (by simp), hnone, List.append_nil]

theorem kept_eq_nil_iff : kept ops = [] ↔ ∀ m ∈ moments ops, m.Kept → m.op.item? = none := by
  simp [kept]

theorem kept_drain (ops : List (Op α)) : kept (ops ++ [.drain]) = [] := by
  refine kept_eq_nil_iff.mpr fun m hm hkept => ?_
  rcases mem_moments_concat hm with ⟨m', -, rfl⟩ | hlast
  · exact absurd rfl (hkept.1 .drain (List.mem_append_right _ List.mem_cons_self))
  · rw [hlast]
    rfl

theorem kept_scope (h : Balanced xs) : kept (.pushScope :: xs) = kept xs := by
  have hnone : kept [(.pushScope : Op α)] = [] := by simp [kept, moments, Op.item?]
  rw [← List.singleton_append, kept_append_of_nesting (by rw [h]; rfl), hnone, List.nil_append]

-- Every push of the scope lies between the two operations that open and close it.
theorem kept_dropped (h : Balanced xs) : kept (.pushScope :: xs ++ [.popScope false]) = [] := by
  refine kept_eq_nil_iff.mpr fun m hm hkept => ?_
  rcases mem_moments_concat hm with ⟨m', hm', rfl⟩ | hlast
  · rcases List.mem_cons.mp hm' with rfl | hinside
    · rfl
    · obtain ⟨m, hinner, rfl⟩ := List.mem_map.mp hinside
      rw [eq_of_mem_moments hinner] at h
      exact absurd ⟨⟨[], .pushScope, m.before⟩, List.mem_cons_self, ⟨m.after, .popScope false, []⟩, mem_moments _ _ _, rfl, rfl, h⟩
        hkept.2
  · rw [hlast]
    rfl

theorem kept_closed (h : Balanced xs) (commit : Bool) :
    kept (.pushScope :: xs ++ [.popScope commit]) = if commit then kept xs else [] := by
  cases commit with
  | true => exact (kept_popScope (.inl rfl)).trans (kept_scope h)
  | false => exact kept_dropped h

end Moments

section Flat

variable {xs ys ops : List (Op α)}

theorem Flat.append_balanced (hx : Flat xs) (hy : Balanced ys) : Flat (xs ++ ys) := by
  intro m hm hpush
  rcases mem_moments_append.mp hm with ⟨m', hm', rfl⟩ | ⟨⟨before, op, after⟩, hm', rfl⟩
  · change nesting 0 (m'.after ++ ys) = none
    rw [nesting_append, hx m' hm' hpush]
    rfl
  · obtain rfl : op = .pushScope := hpush
    change nesting 0 after = none
    rw [eq_of_mem_moments hm', Balanced, nesting_append] at hy
    obtain ⟨k, -, hk⟩ := Option.bind_eq_some_iff.mp hy
    cases hafter : nesting 0 after with
    | none => rfl
    | some j =>
        have hopen := nesting_add hafter (k + 1)
        rw [Nat.zero_add] at hopen
        cases hopen.symm.trans hk

theorem Flat.popScope (h : Flat ops) (commit : Bool) : Flat (ops ++ [.popScope commit]) := by
  intro m hm hpush
  rcases mem_moments_concat hm with ⟨m', hm', rfl⟩ | hlast
  · change nesting 0 (m'.after ++ _) = none
    rw [nesting_append, h m' hm' hpush]
    rfl
  · cases hlast.symm.trans hpush

theorem flat_drain (ops : List (Op α)) : Flat (ops ++ [.drain]) := by
  intro m hm hpush
  rcases mem_moments_concat hm with ⟨m', -, rfl⟩ | hlast
  · change nesting 0 (m'.after ++ _) = none
    rw [nesting_append]
    cases nesting 0 m'.after <;> rfl
  · cases hlast.symm.trans hpush

theorem not_flat_of_balanced (h : Balanced ys) : ¬ Flat (xs ++ .pushScope :: ys) := fun hflat => by
  have hnone := hflat ⟨xs, .pushScope, ys⟩ (mem_moments _ _ _) rfl
  cases h.symm.trans hnone

end Flat

section Histories

variable {ops block : List (Op α)} {s : Scopes α}

inductive Unfolds : List (Op α) → Scopes α → Prop
  | root {ops : List (Op α)} : Flat ops → Unfolds ops ⟨kept ops, []⟩
  | scope {ops inner : List (Op α)} {s : Scopes α} : Unfolds ops s → Balanced inner →
      Unfolds (ops ++ .pushScope :: inner) ⟨s.root, kept inner :: s.nested⟩

theorem Unfolds.append_balanced (h : Unfolds ops s) (hblock : Balanced block) : Unfolds (ops ++ block) (s.append (kept block)) := by
  have hkept (xs : List (Op α)) : kept (xs ++ block) = kept xs ++ kept block := kept_append_of_nesting (by rw [hblock]; rfl)
  cases h with
  | root hflat =>
      change Unfolds _ ⟨_ ++ kept block, []⟩
      rw [← hkept]
      exact .root (hflat.append_balanced hblock)
  | @scope ops inner s h hinner =>
      change Unfolds _ ⟨s.root, (kept inner ++ kept block) :: s.nested⟩
      rw [List.append_assoc, List.cons_append, ← hkept]
      exact .scope h (hinner.append hblock)

theorem Unfolds.perform (h : Unfolds ops s) (op : Op α) : Unfolds (ops ++ [op]) (s.perform op) := by
  cases op with
  | push item =>
      have hpush := h.append_balanced (balanced_push item)
      rwa [kept_push] at hpush
  | pushScope => exact .scope h balanced_nil
  | popScope commit =>
      cases h with
      | root hflat =>
          change Unfolds _ ⟨kept ops, []⟩
          rw [← kept_popScope (.inr hflat)]
          exact .root (hflat.popScope commit)
      | @scope ops inner s h hinner =>
          have hclosed := h.append_balanced (hinner.scope commit)
          rw [kept_closed hinner] at hclosed
          rw [List.append_assoc, List.cons_append]
          cases commit with
          | true => exact hclosed
          | false => exact s.append_nil ▸ hclosed
  | drain =>
      change Unfolds _ ⟨[], []⟩
      rw [← kept_drain ops]
      exact .root (flat_drain ops)

theorem unfolds_after (ops : List (Op α)) : Unfolds ops (after ops) := by
  induction ops using List.reverseRecOn with
  | nil => exact .root nofun
  | append_singleton ops op ih =>
      rw [after, List.foldl_append]
      exact ih.perform op

theorem Unfolds.toList (h : Unfolds ops s) : s.toList = kept ops := by
  induction h with
  | root => exact List.append_nil _
  | @scope ops inner s _ hinner ih =>
      have hinside : (nesting 0 (.pushScope :: inner)).isSome := by rw [nesting, nesting_add hinner 1]; rfl
      rw [kept_append_of_nesting hinside, kept_scope hinner, ← ih]
      simp [Scopes.toList]

theorem Unfolds.popScope_iff (h : Unfolds ops s) (commit : Bool) : (s.popScope commit).1 = false ↔ Flat ops := by
  cases h with
  | root hflat => exact ⟨fun _ => hflat, fun _ => rfl⟩
  | scope h hinner => exact ⟨nofun, fun hflat => absurd hflat (not_flat_of_balanced hinner)⟩

theorem popScope_of_not_popped {commit : Bool} (h : (s.popScope commit).1 = false) : (s.popScope commit).2 = s := by
  obtain ⟨root, nested⟩ := s
  cases nested with
  | nil => rfl
  | cons inner outer => cases h

theorem after_accounts (ops : List (Op α)) :
    let s := after ops
    s.drain.1 = kept ops ∧ s.length = (kept ops).length ∧
      ∀ commit, ((s.popScope commit).1 = false ↔ Flat ops) ∧ ((s.popScope commit).1 = false → (s.popScope commit).2 = s) := by
  intro s
  have hunfolds : Unfolds ops s := unfolds_after ops
  refine ⟨hunfolds.toList, ?_, fun commit => ⟨hunfolds.popScope_iff commit, popScope_of_not_popped⟩⟩
  rw [← length_toList, hunfolds.toList]

example : kept [.push 0, .drain, .popScope false, .push 1, .pushScope, .push 2, .pushScope, .push 3, .popScope true, .popScope false,
    .pushScope, .push 4] = [1, 4] := by
  decide

end Histories

end RowTyping.Scopes
