import RowTyping.Ty.Basic
import RowTyping.Diagnostic.Basic

namespace RowTyping.Effects

def known : List String :=
  ["IO", "FS", "Net", "Clock", "Rand", "DB", "Trace", "Async"]

def isKnown (name : String) : Bool :=
  known.contains name

def elaborate (names : List String) : Except Diagnostic Effects :=
  match names.find? fun name => !isKnown name with
  | some unknown =>
      .error <| (Diagnostic.error .unknownEffect ("unknown effect `" ++ unknown ++ "`")).withHelp
        ("known effects are " ++ ", ".intercalate known)
  | none => .ok (if names.isEmpty then none else closed names)

def unionTail : Option RowVarId → Option RowVarId → Option RowVarId
  | some r, some r' => some (min r r')
  | some r, none => some r
  | none, rest => rest

def union : Effects → Effects → Effects
  | none, b => b
  | a, none => a
  | some a, some b => some ⟨a.kind, OrderedMap.merge a.fields b.fields, unionTail a.rest b.rest⟩

def unionAll (rows : List Effects) : Effects :=
  rows.foldl union none

def subsumed : Effects → Effects → Bool
  | none, _ => true
  | some _, none => false
  | some a, some b => b.isOpen || (a.isClosed && a.labels.all b.has)

def normalize (e : Effects) : Effects :=
  if e.any fun r => r.isClosed && r.isEmpty then none else e

end RowTyping.Effects
