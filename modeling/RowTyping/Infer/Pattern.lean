import RowTyping.Infer.Boundary
import RowTyping.Ty.Positional

namespace RowTyping

def RecordEncoding.recordType (encoding : RecordEncoding) (fields : OrderedMap Label Ty) : Ty :=
  match encoding with
  | .rows => .record (.closedRecord fields)
  | .positional => .positionalRecord fields

abbrev BoundNames := OrderedMap String Ty

namespace InferM

def literalType (node : NodeId) : Literal → InferM Ty
  | .int _ => do
      let t ← freshType
      addClass "Num" t node .literal
      return t
  | .float _ => do
      let t ← freshType
      addClass "Fractional" t node .literal
      return t
  | .string _ => return .string
  | .bool _ => return .bool
  | .unit => return .unit
  | .bytes _ => return .bytes

def bindName (node : NodeId) (bound : BoundNames) (name : String) : InferM (TypedPattern × BoundNames) := do
  let t ← freshType
  match bound.find? name with
  | some earlier =>
      equate node .patternMatch earlier t
      return (.var node t name, bound)
  | none => return (.var node t name, bound.insert name t)

def recordPatternType (session : Session) (fields : List (String × TypedPattern)) (isOpen : Bool) :
    InferM Ty := do
  let types := OrderedMap.ofList (fields.map fun f => (f.1, f.2.ty))
  if isOpen then return .record (.openRecord types (← freshRow))
  else return session.config.encoding.recordType types

mutual

def inferPattern (session : Session) (bound : BoundNames) : Pattern → InferM (TypedPattern × BoundNames)
  | .wildcard id => return (.wildcard id (← freshType), bound)
  | .var id name => bindName id bound name
  | .lit id l => return (.lit id (← literalType id l) l, bound)
  | .tuple id ps => do
      let (ps, bound) ← inferPatterns session (fun _ => pure ()) bound ps
      return (.tuple id (.tuple (ps.map TypedPattern.ty)) ps, bound)
  | .list id ps rest => do
      let elem ← freshType
      let (ps, bound) ← inferPatterns session (fun p => equate p.id .listElement elem p.ty) bound ps
      let (rest, bound) ← inferPatternRest session (fun p => equate p.id .patternMatch (.list elem) p.ty) bound rest
      return (.list id (.list elem) ps rest, bound)
  | .record id fs isOpen => do
      let (fs, bound) ← inferPatternFields session bound fs
      return (.record id (← recordPatternType session fs isOpen) fs isOpen, bound)
termination_by structural p => p

def inferPatterns (session : Session) (after : TypedPattern → InferM Unit) (bound : BoundNames) :
    List Pattern → InferM (List TypedPattern × BoundNames)
  | [] => return ([], bound)
  | p :: ps => do
      let (p, bound) ← inferPattern session bound p
      after p
      let (ps, bound) ← inferPatterns session after bound ps
      return (p :: ps, bound)
termination_by structural ps => ps

def inferPatternRest (session : Session) (after : TypedPattern → InferM Unit) (bound : BoundNames) :
    Option Pattern → InferM (Option TypedPattern × BoundNames)
  | none => return (none, bound)
  | some p => do
      let (p, bound) ← inferPattern session bound p
      after p
      return (some p, bound)
termination_by structural p => p

def inferPatternFields (session : Session) (bound : BoundNames) :
    List (String × Pattern) → InferM (List (String × TypedPattern) × BoundNames)
  | [] => return ([], bound)
  | (name, p) :: fs => do
      let (p, bound) ← inferPattern session bound p
      let (fs, bound) ← inferPatternFields session bound fs
      return ((name, p) :: fs, bound)
termination_by structural fs => fs

end

end InferM

end RowTyping
