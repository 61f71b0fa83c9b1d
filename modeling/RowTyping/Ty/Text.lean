import RowTyping.Ty.Vars

namespace RowTyping

structure VarNames where
  types : OrderedMap TypeVarId String
  rows : OrderedMap RowVarId String

namespace VarNames

def none : VarNames := ⟨[], []⟩

def letter (index : Nat) : String :=
  let c := (Char.ofNat ('a'.toNat + index % 26)).toString
  if index / 26 = 0 then c else c ++ toString (index / 26)

def lettered (ids : List Nat) : OrderedMap Nat String :=
  .ofList (ids.zipIdx.map fun (id, i) => (id, letter i))

def ofTypes (ts : List Ty) : VarNames where
  types := lettered (OrderedSet.ofList (ts.flatMap Ty.typeVars))
  rows := lettered (OrderedSet.ofList (ts.flatMap Ty.rowVars))

def type (names : VarNames) (id : TypeVarId) : String :=
  (names.types.find? id).getD ("t" ++ toString id)

def row (names : VarNames) (kind : Kind) (id : RowVarId) : String :=
  (if kind.isEffectRow then "e" else "r") ++ (names.rows.find? id).getD (toString id)

end VarNames

namespace Row

def tailText (names : VarNames) (r : Row) : String :=
  match r.rest with
  | none => ""
  | some id => (if r.isEmpty then "" else " | ") ++ names.row r.kind id

def effectsText (names : VarNames) (r : Row) : String :=
  "[" ++ ", ".intercalate r.labels ++ r.tailText names ++ "]"

end Row

namespace Effects

def arrow (names : VarNames) : Effects → String
  | none => " -> "
  | some r => if r.isEmpty && r.isClosed then " -> " else " -" ++ r.effectsText names ++ "> "

end Effects

namespace Ty

mutual

def write (names : VarNames) : Ty → String
  | .var v => names.type v.id
  | .con name => name
  | .app h as => write names h ++ "(" ++ ", ".intercalate (writeAll names as) ++ ")"
  | .list a => "List(" ++ write names a ++ ")"
  | .tuple as => "#(" ++ ", ".intercalate (writeAll names as) ++ ")"
  | .fn ps e r =>
      "(" ++ ", ".intercalate (writeAll names ps) ++ ")" ++ Effects.arrow names e ++ write names r
  | .record r => writeRecord names r
termination_by structural t => t

def writeAll (names : VarNames) : List Ty → List String
  | [] => []
  | t :: ts => write names t :: writeAll names ts
termination_by structural ts => ts

def writeRecord (names : VarNames) : Row → String
  | ⟨k, fs, rest⟩ =>
      if fs.isEmpty && rest.isNone then "\x7b\x7d"
      else "\x7b " ++ ", ".intercalate (writeFields names fs) ++ Row.tailText names ⟨k, fs, rest⟩ ++ " \x7d"
termination_by structural r => r

def writeFields (names : VarNames) : List (Label × Ty) → List String
  | [] => []
  | (l, t) :: fs => (l ++ ": " ++ write names t) :: writeFields names fs
termination_by structural fs => fs

end

def text (t : Ty) : String :=
  t.write .none

def display (t : Ty) : String :=
  t.write (.ofTypes [t])

def displayPair (t u : Ty) : String × String :=
  (t.write (.ofTypes [t, u]), u.write (.ofTypes [t, u]))

end Ty

def Row.text (r : Row) : String :=
  if r.isEffect then r.effectsText .none else (Ty.record r).text

def Effects.text : Effects → String
  | none => "pure"
  | some r => r.effectsText .none

end RowTyping
