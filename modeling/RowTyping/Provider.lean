import RowTyping.Classes.Registry
import RowTyping.Unify.Supply

namespace RowTyping

structure Provider where
  classes : List ClassDecl
  instances : List ClassInstance
  values : StateM Supply (List (String × Scheme))
  moduleDefault : Ty

namespace Supply

def drawType : StateM Supply TypeVarId :=
  modifyGet freshType

def drawRow : StateM Supply RowVarId :=
  modifyGet freshRow

end Supply

namespace Prelude

def eqMethods : List String := ["eq", "neq"]

def ordMethods : List String := ["lt", "lte", "gt", "gte"]

def showMethods : List String := ["show"]

def numMethods : List String := ["add", "sub", "mul", "div", "neg"]

def classes : List ClassDecl :=
  [⟨"Eq", [], eqMethods, none⟩,
    ⟨"Ord", ["Eq"], ordMethods, none⟩,
    ⟨"Show", [], showMethods, none⟩,
    ⟨"Num", [], numMethods, some .int⟩,
    ⟨"Fractional", ["Num"], numMethods, some .float⟩,
    ⟨"Integral", ["Num"], ["mod"], some .int⟩]

def comparable (head : String) : List ClassInstance :=
  [.builtin "Eq" head eqMethods, .builtin "Ord" head ordMethods, .builtin "Show" head showMethods]

def instances : List ClassInstance :=
  ["Int", "Float", "String", "Bool", "Unit", "Bytes"].flatMap comparable
    ++ (["List", "Tuple"].flatMap comparable).map ClassInstance.withArgumentContext
    ++ [.builtin "Num" "Int" numMethods,
      .builtin "Num" "Float" numMethods,
      .builtin "Fractional" "Float" numMethods,
      .builtin "Integral" "Int" ["mod"]]

def plain (params : List Ty) (effects : List Label) (result : Ty) : Scheme :=
  .mono (.fn params (Effects.closed effects) result)

def showScheme (a : TypeVarId) : Scheme :=
  ⟨[.star a], [], [⟨"Show", .ofVar a⟩], .fn [.ofVar a] none .string⟩

def lengthScheme (a : TypeVarId) : Scheme :=
  ⟨[.star a], [], [], .fn [.list (.ofVar a)] none .int⟩

def mapScheme (a b : TypeVarId) (e : RowVarId) : Scheme :=
  ⟨[.star a, .star b], [e], [],
    .fn [.fn [.ofVar a] (Effects.opened [] e) (.ofVar b), .list (.ofVar a)] (Effects.opened [] e)
      (.list (.ofVar b))⟩

def values : StateM Supply (List (String × Scheme)) := do
  let showVar ← Supply.drawType
  let lengthVar ← Supply.drawType
  let mapFrom ← Supply.drawType
  let mapTo ← Supply.drawType
  let mapTail ← Supply.drawRow
  return [("print", plain [.string] ["IO"] .unit),
    ("show", showScheme showVar),
    ("length", lengthScheme lengthVar),
    ("map", mapScheme mapFrom mapTo mapTail),
    ("read_file", plain [.string] ["FS"] .string),
    ("fetch", plain [.string] ["Net"] .string),
    ("now", plain [] ["Clock"] .int),
    ("random", plain [] ["Rand"] .float),
    ("sleep", plain [.int] ["Async"] .unit),
    ("to_float", .mono (.fn [.int] none .float))]

end Prelude

def Provider.prelude : Provider :=
  ⟨Prelude.classes, Prelude.instances, Prelude.values, .int⟩

namespace Registry

def registerAll (r : Registry) (classes : List ClassDecl) (instances : List ClassInstance) :
    List Diagnostic × Registry :=
  let (refusedClasses, r) := r.register registerClass classes
  let (refusedInstances, r) := r.register registerInstance instances
  (refusedClasses ++ refusedInstances, r)

def prelude : Registry :=
  (empty.registerAll Prelude.classes Prelude.instances).2

end Registry

end RowTyping
