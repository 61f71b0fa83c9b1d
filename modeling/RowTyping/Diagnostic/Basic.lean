import RowTyping.Diagnostic.Category

namespace RowTyping

inductive Severity where
  | error
  | warning
  | info
  deriving DecidableEq, Repr, Inhabited

def Severity.name : Severity → String
  | .error => "error"
  | .warning => "warning"
  | .info => "info"

abbrev SourcePath := List String

namespace SourcePath

def push (p : SourcePath) (segment : String) : SourcePath :=
  p ++ [segment]

def pop (p : SourcePath) : SourcePath :=
  p.dropLast

def text (p : SourcePath) : String :=
  if p.isEmpty then "<top level>" else " > ".intercalate p

theorem pop_push (p : SourcePath) (segment : String) : (p.push segment).pop = p := by
  simp [push, pop]

end SourcePath

inductive DiffKind where
  | missing
  | extra
  | mismatched
  deriving DecidableEq, Repr, Inhabited

namespace DiffKind

def name : DiffKind → String
  | .missing => "missing"
  | .extra => "extra"
  | .mismatched => "mismatched"

def marker : DiffKind → String
  | .missing => "-"
  | .extra => "+"
  | .mismatched => "~"

end DiffKind

structure FieldDiff where
  kind : DiffKind
  label : String
  detail : Option String
  deriving DecidableEq, Repr, Inhabited

namespace FieldDiff

def missing (label : String) : FieldDiff :=
  ⟨.missing, label, none⟩

def extra (label : String) : FieldDiff :=
  ⟨.extra, label, none⟩

def mismatched (label detail : String) : FieldDiff :=
  ⟨.mismatched, label, some detail⟩

def text (d : FieldDiff) : String :=
  d.kind.marker ++ " " ++ d.label ++ (d.detail.map (": " ++ ·)).getD ""

end FieldDiff

structure Diagnostic where
  code : Option String
  severity : Severity
  category : Category
  message : String
  path : SourcePath
  node : Option Nat
  expected : Option String
  actual : Option String
  diff : List FieldDiff
  help : Option String
  deriving DecidableEq, Repr, Inhabited

namespace Diagnostic

def ofSeverity (severity : Severity) (category : Category) (message : String) : Diagnostic where
  code := some category.code
  severity := severity
  category := category
  message := message
  path := []
  node := none
  expected := none
  actual := none
  diff := []
  help := none

def error (category : Category) (message : String) : Diagnostic :=
  ofSeverity .error category message

def located (d : Diagnostic) (path : SourcePath) (node : Option Nat) : Diagnostic :=
  { d with path := path, node := node }

def withTypes (d : Diagnostic) (expected actual : String) : Diagnostic :=
  { d with expected := some expected, actual := some actual }

def withDiff (d : Diagnostic) (diff : List FieldDiff) : Diagnostic :=
  { d with diff := diff }

def withHelp (d : Diagnostic) (help : String) : Diagnostic :=
  { d with help := some help }

def isError (d : Diagnostic) : Bool :=
  d.severity == .error

def typesText (d : Diagnostic) : String :=
  match d.expected, d.actual with
  | some e, some a => "\n  expected: " ++ e ++ "\n  actual:   " ++ a
  | _, _ => ""

def text (d : Diagnostic) : String :=
  d.severity.name ++ (d.code.map fun c => "[" ++ c ++ "]").getD "" ++ ": " ++ d.message
    ++ (if d.path.isEmpty then "" else "\n  --> " ++ d.path.text)
    ++ d.typesText
    ++ String.join (d.diff.map fun entry => "\n  " ++ entry.text)
    ++ (d.help.map ("\n  help: " ++ ·)).getD ""

def summary : List Diagnostic → String
  | [] => ""
  | [d] => d.text
  | d :: rest => d.text ++ "\n(" ++ toString rest.length ++ " more errors)"

end Diagnostic

end RowTyping
