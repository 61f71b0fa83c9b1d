namespace RowTyping

inductive Kind where
  | star
  | effect
  | record
  | row (labels : Kind)
  deriving DecidableEq, Repr, Inhabited

namespace Kind

abbrev effectRow : Kind := .row .effect

abbrev recordRow : Kind := .row .record

def isRow : Kind → Bool
  | .row _ => true
  | _ => false

def isEffectRow (k : Kind) : Bool :=
  k == effectRow

def text : Kind → String
  | .star => "*"
  | .effect => "Effect"
  | .record => "Record"
  | .row k => "Row(" ++ k.text ++ ")"

def read? : List Char → Option (Kind × List Char)
  | '*' :: cs => some (.star, cs)
  | 'E' :: 'f' :: 'f' :: 'e' :: 'c' :: 't' :: cs => some (.effect, cs)
  | 'R' :: 'e' :: 'c' :: 'o' :: 'r' :: 'd' :: cs => some (.record, cs)
  | 'R' :: 'o' :: 'w' :: '(' :: cs =>
      match read? cs with
      | some (k, ')' :: cs') => some (.row k, cs')
      | _ => none
  | _ => none

def ofText? (s : String) : Option Kind :=
  match read? s.toList with
  | some (k, []) => some k
  | _ => none

theorem read?_text (k : Kind) (cs : List Char) : read? (k.text.toList ++ cs) = some (k, cs) := by
  induction k generalizing cs with
  | star => simp [text, read?]
  | effect => simp [text, read?]
  | record => simp [text, read?]
  | row k ih => simp [text, read?, ih]

theorem ofText?_text (k : Kind) : ofText? k.text = some k := by
  have h := read?_text k []
  rw [List.append_nil] at h
  simp [ofText?, h]

end Kind

end RowTyping
