namespace RowTyping

structure Scopes (α : Type) where
  root : List α
  nested : List (List α)
  deriving DecidableEq, Repr, Inhabited

namespace Scopes

variable {α : Type}

def empty : Scopes α :=
  ⟨[], []⟩

def pushScope (s : Scopes α) : Scopes α :=
  { s with nested := [] :: s.nested }

def append (s : Scopes α) (items : List α) : Scopes α :=
  match s.nested with
  | [] => { s with root := s.root ++ items }
  | inner :: outer => { s with nested := (inner ++ items) :: outer }

def push (s : Scopes α) (item : α) : Scopes α :=
  s.append [item]

def popScope (s : Scopes α) (commit : Bool) : Bool × Scopes α :=
  match s.nested with
  | [] => (false, s)
  | inner :: outer =>
      let parent := { s with nested := outer }
      (true, if commit then parent.append inner else parent)

def takeScope (s : Scopes α) : List α × Scopes α :=
  match s.nested with
  | [] => (s.root, { s with root := [] })
  | inner :: outer => (inner, { s with nested := outer })

def innermost (s : Scopes α) : List α :=
  s.nested.headD s.root

def toList (s : Scopes α) : List α :=
  s.root ++ s.nested.reverse.flatten

def length (s : Scopes α) : Nat :=
  s.nested.foldl (fun n scope => n + scope.length) s.root.length

def drain (s : Scopes α) : List α × Scopes α :=
  (s.toList, empty)

def map (f : α → α) (s : Scopes α) : Scopes α :=
  ⟨s.root.map f, s.nested.map (List.map f)⟩

theorem length_toList (s : Scopes α) : s.toList.length = s.length := by
  have hsum (nested : List (List α)) (n : Nat) :
      n + nested.reverse.flatten.length = nested.foldl (fun n scope => n + scope.length) n := by
    induction nested generalizing n with
    | nil => rfl
    | cons inner outer ih => rw [List.foldl_cons, ← ih]; simp; omega
  rw [toList, List.length_append, hsum, length]

theorem toList_append (s : Scopes α) (items : List α) : (s.append items).toList = s.toList ++ items := by
  obtain ⟨root, nested⟩ := s
  cases nested <;> simp [append, toList]

theorem toList_pushScope (s : Scopes α) : s.pushScope.toList = s.toList := by
  simp [pushScope, toList]

theorem toList_popScope_commit (s : Scopes α) : (s.popScope true).2.toList = s.toList := by
  obtain ⟨root, nested⟩ := s
  cases nested with
  | nil => rfl
  | cons inner outer =>
      have := toList_append ⟨root, outer⟩ inner
      simpa [popScope, toList] using this

theorem toList_map (f : α → α) (s : Scopes α) : (s.map f).toList = s.toList.map f := by
  simp [map, toList, List.map_reverse]

end Scopes

end RowTyping
