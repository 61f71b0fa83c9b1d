import RowTyping.Classes.Constraint
import RowTyping.Classes.Registry

namespace RowTyping

def neutralClasses : List String :=
  ["Eq", "Ord", "Show"]

inductive DefaultingMode where
  | boundary
  | topLevel
  deriving DecidableEq, Repr, Inhabited

inductive NoDefault where
  | unknownClass (name : String)
  | noDefaultType (name : String)
  | conflict (classes : List String)
  deriving DecidableEq, Repr, Inhabited

namespace NoDefault

def text : NoDefault → String
  | .unknownClass name => "unknown class `" ++ name ++ "`"
  | .noDefaultType name => "class `" ++ name ++ "` has no default type"
  | .conflict classes => "no type is both " ++ " and ".intercalate classes

def diagnostic : NoDefault → Diagnostic
  | .conflict classes =>
      (Diagnostic.error .ambiguousType
        ("conflicting numeric classes: " ++ text (.conflict classes))).withHelp
        "convert one operand explicitly, e.g. with to_float, so one numeric type is used"
  | reason =>
      (Diagnostic.error .ambiguousType ("ambiguous type requires annotation: " ++ reason.text)).withHelp
        Category.ambiguousType.exampleFix

end NoDefault

namespace Registry

mutual

def reduceVars (r : Registry) (className : String) : Ty → List TypeVarId
  | .var v => [v.id]
  | .app h as => if r.constrainsArguments className (.app h as) then reduceVarsAll r className as else []
  | .list a => if r.constrainsArguments className (.list a) then reduceVars r className a else []
  | .tuple as => if r.constrainsArguments className (.tuple as) then reduceVarsAll r className as else []
  | _ => []
termination_by structural t => t

def reduceVarsAll (r : Registry) (className : String) : List Ty → List TypeVarId
  | [] => []
  | t :: ts => reduceVars r className t ++ reduceVarsAll r className ts
termination_by structural ts => ts

end

def primaryClasses (r : Registry) : List String → Except NoDefault (List String)
  | [] => .ok []
  | c :: cs =>
      if neutralClasses.contains c then primaryClasses r cs
      else if !r.hasClass c then .error (.unknownClass c)
      else if (r.defaultType c).isNone then .error (.noDefaultType c)
      else (primaryClasses r cs).map (c :: ·)

def chooseDefault (r : Registry) (classes : OrderedSet String) : Except NoDefault Ty := do
  let primary ← r.primaryClasses classes
  let implied := primary.flatMap r.superclassClosure
  match primary.filter fun c => !implied.contains c with
  | [] => return r.moduleDefault
  | [c] =>
      match r.defaultType c with
      | some t => return t
      | none => .error (.noDefaultType c)
  | several => .error (.conflict several)

end Registry

structure VarClasses where
  classes : OrderedSet String
  first : ClassConstraint
  deriving DecidableEq, Inhabited

structure DefaultingOutcome where
  subst : Substitution
  errors : List Diagnostic
  rejected : OrderedSet TypeVarId
  events : List Event
  deriving DecidableEq, Inhabited

namespace Defaulting

def addVar (c : ClassConstraint) (m : OrderedMap TypeVarId VarClasses) (v : TypeVarId) :
    OrderedMap TypeVarId VarClasses :=
  let entry := (m.find? v).getD ⟨[], c⟩
  m.insert v { entry with classes := entry.classes.insert c.className }

def addConstraint (r : Registry) (m : OrderedMap TypeVarId VarClasses) (c : ClassConstraint) :
    OrderedMap TypeVarId VarClasses :=
  (r.reduceVars c.className c.ty).foldl (addVar c) m

def byVar (r : Registry) (constraints : List ClassConstraint) : OrderedMap TypeVarId VarClasses :=
  constraints.foldl (addConstraint r) []

def isCandidate (monotype : Ty) (envVars : List TypeVarId) (mode : DefaultingMode) (v : TypeVarId) : Bool :=
  !envVars.contains v && !(mode == .boundary && monotype.typeVars.contains v)

def choose (r : Registry) (out : DefaultingOutcome) (e : TypeVarId × VarClasses) : DefaultingOutcome :=
  match r.chooseDefault e.2.classes with
  | .ok t =>
      { out with
        subst := out.subst.bindType e.1 t
        events := out.events ++ [.defaulted e.1 e.2.classes t] }
  | .error reason =>
      { out with
        errors := out.errors ++ [reason.diagnostic.located e.2.first.path (some e.2.first.node)]
        rejected := out.rejected.insert e.1
        events := out.events ++ [.notDefaulted e.1 reason.text] }

end Defaulting

def defaultConstraints (monotype : Ty) (constraints : List ClassConstraint) (envVars : List TypeVarId)
    (r : Registry) (mode : DefaultingMode) : DefaultingOutcome :=
  let candidates := (Defaulting.byVar r constraints).filter fun e =>
    Defaulting.isCandidate monotype envVars mode e.1
  candidates.foldl (Defaulting.choose r) ⟨.empty, [], [], []⟩

end RowTyping
