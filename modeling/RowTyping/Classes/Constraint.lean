import RowTyping.Diagnostic.Basic
import RowTyping.Expr.Basic
import RowTyping.Substitution

namespace RowTyping

inductive Origin where
  | literal
  | operator
  | instantiation
  deriving DecidableEq, Repr, Inhabited

structure ClassConstraint where
  className : String
  ty : Ty
  path : SourcePath
  node : NodeId
  origin : Origin
  deriving DecidableEq, Inhabited

namespace ClassConstraint

def isGround (c : ClassConstraint) : Bool :=
  c.ty.isGround

def mapTy (f : Ty → Ty) (c : ClassConstraint) : ClassConstraint :=
  { c with ty := f c.ty }

end ClassConstraint

end RowTyping
