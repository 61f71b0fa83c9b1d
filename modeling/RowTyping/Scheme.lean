import RowTyping.Ty.Text

namespace RowTyping

structure Predicate where
  className : String
  ty : Ty
  deriving DecidableEq, Inhabited

structure Scheme where
  typeVars : List TypeVar
  rowVars : List RowVarId
  predicates : List Predicate
  ty : Ty
  deriving DecidableEq, Inhabited

namespace Scheme

def mono (t : Ty) : Scheme :=
  ⟨[], [], [], t⟩

def isMono (s : Scheme) : Bool :=
  s.typeVars.isEmpty && s.rowVars.isEmpty

def freeTypeVars (s : Scheme) : OrderedSet TypeVarId :=
  (OrderedSet.ofList (s.ty.typeVars ++ s.predicates.flatMap fun p => p.ty.typeVars)).diff
    (s.typeVars.map TypeVar.id)

def freeRowVars (s : Scheme) : OrderedSet RowVarId :=
  s.ty.rowVars.diff s.rowVars

def names (s : Scheme) : VarNames where
  types := OrderedMap.ofList (s.typeVars.zipIdx.map fun (v, i) => (v.id, VarNames.letter i))
  rows := OrderedMap.ofList (s.rowVars.zipIdx.map fun (r, i) => (r, VarNames.letter i))

def text (s : Scheme) : String :=
  let names := s.names
  let quantifier :=
    if s.typeVars.isEmpty then ""
    else "forall " ++ " ".intercalate (s.typeVars.map fun v => names.type v.id) ++ ". "
  let context :=
    if s.predicates.isEmpty then ""
    else ", ".intercalate (s.predicates.map fun p => p.className ++ " " ++ p.ty.write names) ++ " => "
  quantifier ++ context ++ s.ty.write names

end Scheme

end RowTyping
