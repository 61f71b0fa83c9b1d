import RowTyping.Expr.Basic
import RowTyping.Scheme
import RowTyping.Text.Quoted

namespace RowTyping

inductive LogLevel where
  | error
  | warn
  | info
  | debug
  | trace
  deriving DecidableEq, Repr, Inhabited

def LogLevel.name : LogLevel → String
  | .error => "ERROR"
  | .warn => "WARN"
  | .info => "INFO"
  | .debug => "DEBUG"
  | .trace => "TRACE"

inductive Event where
  | ignoredEncoding (given : String)
  | ignoredCapability (name : String)
  | registeredClass (name : String)
  | instancesSuppressed
  | checkerReady (classes instances : Nat)
  | solvingTypes (expected actual : Ty) (node : NodeId)
  | solvingRows (expected actual : Row) (node : NodeId)
  | defaulted (v : TypeVarId) (classes : OrderedSet String) (ty : Ty)
  | notDefaulted (v : TypeVarId) (reason : String)
  | resolved (className : String) (ty : Ty) (node : NodeId) (derived : Bool)
  | generalized (node : NodeId) (scheme : Scheme)
  | declared (name : String) (scheme : Scheme)
  | checkFailed (errors : Nat)
  | invariantViolated (violation : String)
  deriving DecidableEq, Inhabited

namespace Event

def level : Event → LogLevel
  | .ignoredEncoding _ => .warn
  | .ignoredCapability _ => .warn
  | .registeredClass _ => .debug
  | .instancesSuppressed => .info
  | .checkerReady _ _ => .debug
  | .solvingTypes _ _ _ => .trace
  | .solvingRows _ _ _ => .trace
  | .defaulted _ _ _ => .debug
  | .notDefaulted _ _ => .debug
  | .resolved _ _ _ _ => .debug
  | .generalized _ _ => .debug
  | .declared _ _ => .debug
  | .checkFailed _ => .debug
  | .invariantViolated _ => .error

def quotedSet (names : OrderedSet String) : String :=
  "\x7b" ++ ", ".intercalate (names.map Text.quoted) ++ "\x7d"

def message : Event → String
  | .ignoredEncoding given =>
      "ignoring SABLE_RECORD_ENCODING=" ++ Text.quoted given ++ "; expected `rows` or `legacy`"
  | .ignoredCapability name => "ignoring unknown linear capability `" ++ name ++ "`"
  | .registeredClass name => "registered class " ++ name
  | .instancesSuppressed => "builtin instances suppressed by configuration"
  | .checkerReady classes instances =>
      "type checker ready: " ++ toString classes ++ " classes, " ++ toString instances ++ " instances"
  | .solvingTypes e a node => "solving " ++ e.text ++ " ~ " ++ a.text ++ " at node " ++ nodeText node
  | .solvingRows e a node => "solving row " ++ e.text ++ " ~ " ++ a.text ++ " at node " ++ nodeText node
  | .defaulted v classes t =>
      "defaulting t" ++ toString v ++ " with classes " ++ quotedSet classes ++ " to " ++ t.text
  | .notDefaulted v reason => "cannot default t" ++ toString v ++ ": " ++ reason
  | .resolved className t node derived =>
      "resolved " ++ className ++ " " ++ t.text ++ " at node " ++ nodeText node
        ++ if derived then " (derived)" else ""
  | .generalized node scheme => "generalized at node " ++ nodeText node ++ ": " ++ scheme.text
  | .declared name scheme => name ++ " : " ++ scheme.text
  | .checkFailed errors => "checking failed with " ++ toString errors ++ " error(s)"
  | .invariantViolated violation => "internal invariant violated: " ++ violation

def line (e : Event) : String :=
  e.level.name ++ " " ++ e.message

end Event

end RowTyping
