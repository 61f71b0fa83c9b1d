import RowTyping.Classes.Constraint
import RowTyping.Classes.Registry
import RowTyping.Typed.Tree

namespace RowTyping

inductive InvariantViolation where
  | nonGroundResolution (className : String) (ty : Ty) (node : NodeId)
  | nonGroundExport (className : String) (ty : Ty) (node : NodeId)
  deriving DecidableEq, Inhabited

namespace InvariantViolation

def name : InvariantViolation → String
  | .nonGroundResolution _ _ _ => "NonGroundResolution"
  | .nonGroundExport _ _ _ => "NonGroundExport"

def text : InvariantViolation → String
  | .nonGroundResolution className t node =>
      "non-ground type `" ++ t.text ++ "` reached instance resolution for `" ++ className ++ "` at node "
        ++ nodeText node
  | .nonGroundExport className t node =>
      "non-ground resolved constraint `" ++ className ++ " " ++ t.text ++ "` at node " ++ nodeText node
        ++ " reached export"

end InvariantViolation

structure Resolution where
  node : NodeId
  className : String
  ty : Ty
  method : Option String
  head : String
  derived : Bool
  deriving DecidableEq, Inhabited

def Resolution.event (e : Resolution) : Event :=
  .resolved e.className e.ty e.node e.derived

inductive ResolveError where
  | missing (d : Diagnostic)
  | internal (v : InvariantViolation)
  deriving DecidableEq, Inhabited

namespace Registry

def settle (r : Registry) (className : String) (t : Ty) (arguments : Except Ty Unit) :
    Except Ty (String × Bool) :=
  match r.lookup className t with
  | none => .error t
  | some i => do
      if i.constrainsArguments then arguments
      return (i.head, i.isDerived)

mutual

def find (r : Registry) (className : String) : Ty → Except Ty (String × Bool)
  | .app h as => r.settle className (.app h as) (findAll r className as)
  | .list a => r.settle className (.list a) ((find r className a).map fun _ => ())
  | .tuple as => r.settle className (.tuple as) (findAll r className as)
  | t => r.settle className t (.ok ())
termination_by structural t => t

def findAll (r : Registry) (className : String) : List Ty → Except Ty Unit
  | [] => .ok ()
  | t :: ts => do
      let _ ← find r className t
      findAll r className ts
termination_by structural ts => ts

end

def missing (c : ClassConstraint) (t : Ty) : Diagnostic :=
  let shown := t.display
  let message := "no instance of " ++ c.className ++ " for " ++ shown
    ++ if t = c.ty then "" else ", required by " ++ c.className ++ " " ++ c.ty.display
  ((Diagnostic.error .missingInstance message).located c.path (some c.node)).withHelp
    ("import the prelude or define an instance of " ++ c.className ++ " for " ++ shown)

def resolve (r : Registry) (c : ClassConstraint) : Except ResolveError Resolution :=
  if !c.isGround then .error (.internal (.nonGroundResolution c.className c.ty c.node))
  else
    match r.find c.className c.ty with
    | .error t => .error (.missing (missing c t))
    | .ok (head, derived) => .ok ⟨c.node, c.className, c.ty, none, head, derived⟩

def resolveAll (r : Registry) (cs : List ClassConstraint) :
    List (Except ResolveError Resolution) × List Event :=
  let answers := cs.map r.resolve
  (answers, answers.filterMap fun
    | .ok e => some e.event
    | .error _ => none)

end Registry

abbrev ResolutionTable := OrderedMap NodeId (List Resolution)

namespace ResolutionTable

def get (t : ResolutionTable) (node : NodeId) : List Resolution :=
  (t.find? node).getD []

def entries (t : ResolutionTable) : List Resolution :=
  t.values.flatten

def record (t : ResolutionTable) (e : Resolution) : ResolutionTable :=
  let here := t.get e.node
  if here.any fun e' => e'.className == e.className && e'.ty == e.ty then t else t.insert e.node (here ++ [e])

def extend (t t' : ResolutionTable) : ResolutionTable :=
  t'.entries.foldl record t

def mapEntries (f : Resolution → Resolution) (t : ResolutionTable) : ResolutionTable :=
  t.mapValues fun es => es.map f

def apply (s : Substitution) (t : ResolutionTable) : ResolutionTable :=
  t.mapEntries fun e => { e with ty := s.apply e.ty }

def check (t : ResolutionTable) : Except InvariantViolation ResolutionTable :=
  match t.entries.find? fun e => !e.ty.isGround with
  | some bad => .error (.nonGroundExport bad.className bad.ty bad.node)
  | none => .ok t

def setMethod (t : ResolutionTable) (node : NodeId) (method : String) : ResolutionTable :=
  t.map fun e => if e.1 = node then (e.1, e.2.map fun r => { r with method := some method }) else e

end ResolutionTable

def TypedExpr.operatorMethod? : TypedExpr → Option String
  | .binary _ op _ _ => op.method?
  | .unary _ op _ => some op.method
  | _ => none

def ResolutionTable.assignMethods (t : ResolutionTable) (e : TypedExpr) : ResolutionTable :=
  e.nodes.foldl (fun t node => (node.operatorMethod?.map (t.setMethod node.id)).getD t) t

end RowTyping
