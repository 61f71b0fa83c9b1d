import RowTyping.Ty.Text
import RowTyping.Text.Quoted

namespace RowTyping

inductive Part where
  | application
  | listElement
  | tupleElements
  | function
  deriving DecidableEq, Repr, Inhabited

def Part.text : Part → String
  | .application => "application"
  | .listElement => "list element"
  | .tupleElements => "tuple elements"
  | .function => "function parameters, effects, return"

inductive Failure where
  | mismatch
  | tupleArity
  | functionArity
  | representation
  | labels (missing extra : List Label)
  deriving DecidableEq, Repr, Inhabited

namespace Failure

def labelList (labels : List Label) : String :=
  "[" ++ ", ".intercalate (labels.map fun l => "Label(" ++ Text.quoted l ++ ")") ++ "]"

def text : Failure → String
  | .mismatch => "mismatch"
  | .tupleArity => "tuple arity"
  | .functionArity => "function arity"
  | .representation => "record representation"
  | .labels missing extra => "missing " ++ labelList missing ++ ", extra " ++ labelList extra

end Failure

inductive Action where
  | identity
  | decompose (part : Part)
  | bind (v : TypeVarId) (ty : Ty)
  | enterRows
  | bindTail (v : RowVarId) (row : Row)
  | shareTail (left right shared : RowVarId)
  | typeOccurs
  | tailOccurs (v : RowVarId)
  | typeKinds
  | rowKinds (expected actual : Kind)
  | fail (failure : Failure)
  deriving DecidableEq, Inhabited

namespace Action

def name : Action → String
  | .identity => "identity"
  | .decompose _ => "decompose"
  | .bind _ _ => "bind"
  | .enterRows => "unify_rows"
  | .bindTail _ _ => "bind_row_var"
  | .shareTail _ _ _ => "remy_decompose"
  | .typeOccurs => "occurs_check"
  | .tailOccurs _ => "occurs_check"
  | .typeKinds => "kind_check"
  | .rowKinds _ _ => "kind_check"
  | .fail _ => "error"

def detail : Action → String
  | .identity => ""
  | .decompose part => part.text
  | .bind v t => "t" ++ toString v ++ " := " ++ t.display
  | .enterRows => ""
  | .bindTail v r => "row " ++ toString v ++ " := " ++ r.text
  | .shareTail l r s =>
      "r" ++ toString l ++ " ~ \x7bonly_actual | r" ++ toString s ++ "\x7d, r" ++ toString r
        ++ " ~ \x7bonly_expected | r" ++ toString s ++ "\x7d"
  | .typeOccurs => "infinite type"
  | .tailOccurs v => "row variable " ++ toString v ++ " occurs in its binding"
  | .typeKinds => ""
  | .rowKinds e a => e.text ++ " vs " ++ a.text
  | .fail failure => failure.text

end Action

structure Step where
  action : Action
  left : Ty
  right : Ty
  deriving DecidableEq, Inhabited

end RowTyping
