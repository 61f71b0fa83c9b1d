import RowTyping.Diagnostic.Basic
import RowTyping.Event
import RowTyping.Walk

namespace RowTyping

structure ClassDecl where
  name : String
  superclasses : List String
  methods : List String
  defaultType : Option Ty
  deriving DecidableEq, Inhabited

inductive Method where
  | builtin (symbol : String)
  | derived (viaClass method : String)
  deriving DecidableEq, Repr, Inhabited

structure ClassInstance where
  className : String
  head : String
  methods : OrderedMap String Method
  superclasses : List String
  constrainsArguments : Bool
  deriving DecidableEq, Inhabited

namespace ClassInstance

def builtin (className head : String) (methods : List String) : ClassInstance where
  className := className
  head := head
  methods := OrderedMap.ofList (methods.map fun m => (m, .builtin (head ++ "." ++ m)))
  superclasses := []
  constrainsArguments := false

def withArgumentContext (i : ClassInstance) : ClassInstance :=
  { i with constrainsArguments := true }

def isDerived (i : ClassInstance) : Bool :=
  i.methods.values.any fun
    | .builtin _ => false
    | .derived _ _ => true

def method? (i : ClassInstance) (name : String) : Option Method :=
  i.methods.find? name

end ClassInstance

structure Registry where
  classes : OrderedMap String ClassDecl
  /-- By class, then by head. -/
  instances : OrderedMap String (OrderedMap String ClassInstance)
  moduleDefault : Ty
  frozen : Bool
  events : List Event
  deriving DecidableEq, Inhabited

abbrev RegistryM := TryM Diagnostic Registry

namespace Registry

def empty : Registry :=
  ⟨[], [], .int, false, []⟩

def hasClass (r : Registry) (name : String) : Bool :=
  r.classes.contains name

def defaultType (r : Registry) (className : String) : Option Ty :=
  (r.classes.find? className).bind ClassDecl.defaultType

def allInstances (r : Registry) : List ClassInstance :=
  r.instances.values.flatMap OrderedMap.values

def direct? (r : Registry) (className head : String) : Option ClassInstance :=
  (r.instances.find? className).bind (OrderedMap.find? · head)

def refuse (message : String) : RegistryM Unit :=
  throw (.error .typeError message)

def checkOpen (what : String) : RegistryM Unit := do
  if (← get).frozen then
    refuse ("cannot register " ++ what ++ ": the instance registry is frozen once inference starts")

def registerClass (decl : ClassDecl) : RegistryM Unit := do
  checkOpen ("class `" ++ decl.name ++ "`")
  let r ← get
  if r.hasClass decl.name then
    refuse ("class `" ++ decl.name ++ "` is already defined")
  else
    match decl.superclasses.find? fun s => !r.hasClass s with
    | some missing =>
        refuse ("class `" ++ decl.name ++ "` names unknown superclass `" ++ missing ++ "`")
    | none =>
        modify fun r => { r with
          classes := r.classes.insert decl.name decl
          events := .registeredClass decl.name :: r.events }

def registerInstance (i : ClassInstance) : RegistryM Unit := do
  checkOpen ("instance " ++ i.className ++ " " ++ i.head)
  let r ← get
  match r.classes.find? i.className with
  | none => refuse ("instance for unknown class `" ++ i.className ++ "` on `" ++ i.head ++ "`")
  | some decl =>
      if (r.direct? i.className i.head).isSome then
        throw <| (Diagnostic.error .overlappingInstance
          ("overlapping instances: `" ++ i.className ++ "` already has an instance for `" ++ i.head ++ "`")).withHelp
          Category.overlappingInstance.exampleFix
      else
        modify fun r =>
          let heads := (r.instances.find? i.className).getD []
          { r with instances := r.instances.insert i.className (heads.insert i.head { i with superclasses := decl.superclasses }) }

def register {α : Type} (r : Registry) (add : α → RegistryM Unit) : List α → List Diagnostic × Registry
  | [] => ([], r)
  | a :: as =>
      match add a r with
      | (.ok (), r) => r.register add as
      | (.error d, r) =>
          let (ds, r) := r.register add as
          (d :: ds, r)

def freeze (r : Registry) : Registry :=
  { r with frozen := true }

def superclassesOf (r : Registry) (className : String) : List String :=
  ((r.classes.find? className).map ClassDecl.superclasses).getD []

def widen (r : Registry) (classes : OrderedSet String) : OrderedSet String :=
  classes.union (classes.flatMap r.superclassesOf)

/-- A chain of superclasses is no longer than the number of classes. -/
def superclassClosure (r : Registry) (className : String) : OrderedSet String :=
  Nat.repeat r.widen r.classes.length (.ofList (r.superclassesOf className))

def deriveFrom (decl : ClassDecl) (source : ClassInstance) : ClassInstance where
  className := decl.name
  head := source.head
  methods := OrderedMap.ofList (decl.methods.map fun m => (m, .derived source.className m))
  superclasses := decl.superclasses
  constrainsArguments := source.constrainsArguments

def lookupHead (r : Registry) (className head : String) : Option ClassInstance :=
  match r.direct? className head with
  | some i => some i
  | none => do
      let decl ← r.classes.find? className
      let source ← r.allInstances.find? fun i =>
        i.head == head && (r.superclassClosure i.className).contains className
      return deriveFrom decl source

def lookup (r : Registry) (className : String) (t : Ty) : Option ClassInstance :=
  t.head?.bind (r.lookupHead className)

def constrainsArguments (r : Registry) (className : String) (t : Ty) : Bool :=
  (r.lookup className t).any ClassInstance.constrainsArguments

end Registry

end RowTyping
