import RowTyping.Effects
import RowTyping.Event
import RowTyping.Text.Blank

namespace RowTyping

inductive RecordEncoding where
  | rows
  | positional
  deriving DecidableEq, Repr, Inhabited

namespace RecordEncoding

def all : List RecordEncoding := [.rows, .positional]

def name : RecordEncoding → String
  | .rows => "rows"
  | .positional => "legacy"

end RecordEncoding

structure Config where
  loadInstances : Bool
  encoding : RecordEncoding
  linearCapabilities : OrderedSet String
  trace : Bool
  deriving DecidableEq, Repr

namespace Config

def default : Config :=
  ⟨true, .rows, ["Async"], false⟩

instance : Inhabited Config := ⟨default⟩

def isTruthy (value : String) : Bool :=
  ["1", "true", "yes"].contains (Text.lower (Text.trim value))

def readEncoding (c : Config) (value : String) : Config × List Event :=
  let given := Text.lower (Text.trim value)
  match RecordEncoding.all.find? fun encoding => encoding.name == given with
  | some encoding => ({ c with encoding }, [])
  | none => (c, [.ignoredEncoding given])

def readCapabilities (c : Config) (value : String) : Config × List Event :=
  let names := ((Text.splitOn ',' value).map Text.trim).filter fun name => !name.isEmpty
  ({ c with linearCapabilities := OrderedSet.ofList (names.filter Effects.isKnown) },
    (names.filter fun name => !Effects.isKnown name).map .ignoredCapability)

def ofVariables (lookup : String → Option String) : Config × List Event :=
  let c := default
  let c := match lookup "SABLE_NO_BUILTIN_INSTANCES" with
    | some value => { c with loadInstances := !isTruthy value }
    | none => c
  let (c, encodingEvents) := match lookup "SABLE_RECORD_ENCODING" with
    | some value => c.readEncoding value
    | none => (c, [])
  let (c, capabilityEvents) := match lookup "SABLE_LINEAR_CAPABILITIES" with
    | some value => c.readCapabilities value
    | none => (c, [])
  let c := match lookup "SABLE_TRACE" with
    | some value => { c with trace := isTruthy value }
    | none => c
  (c, encodingEvents ++ capabilityEvents)

end Config

end RowTyping
