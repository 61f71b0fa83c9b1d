import RowTyping.Ty.Text

namespace RowTyping

inductive UnifyError where
  | mismatch (expected actual : Ty)
  | kind (expected actual : Kind)
  | occurs (v : TypeVar) (ty : Ty)
  | rowOccurs (v : RowVarId) (row : Row)
  | arity (expected actual : Nat)
  | tupleArity (expected actual : Nat)
  | rows (kind : Kind) (missing extra : List Label)
  | field (label : Label) (source : UnifyError)
  | representation (expected actual : Ty)
  | circular
  deriving DecidableEq, Inhabited

namespace UnifyError

def text : UnifyError → String
  | .mismatch e a => "cannot unify `" ++ e.text ++ "` with `" ++ a.text ++ "`"
  | .kind e a => "kind mismatch: expected " ++ e.text ++ ", found " ++ a.text
  | .occurs _ t => "type variable occurs in `" ++ t.text ++ "`"
  | .rowOccurs _ r => "row variable occurs in `" ++ r.text ++ "`"
  | .arity e a => "expected " ++ toString e ++ " parameters, found " ++ toString a
  | .tupleArity e a => "expected a tuple of " ++ toString e ++ " elements, found " ++ toString a
  | .rows _ _ _ => "rows do not match"
  | .field l source => "field `" ++ l ++ "`: " ++ source.text
  | .representation e a => "record representations differ: `" ++ e.text ++ "` vs `" ++ a.text ++ "`"
  | .circular => "the bindings of variables are circular"

end UnifyError

end RowTyping
