import RowTyping.Ty.Positional
import RowTyping.Unify.Error
import RowTyping.Unify.Step

namespace RowTyping

inductive Goal where
  | types (expected actual : Ty)
  | rows (expected actual : Row)
  deriving DecidableEq, Inhabited

namespace Goal

def height : Goal → Nat
  | .types e a => max e.height a.height
  | .rows e a => max e.height a.height

def occurrences : Goal → List Occurrence
  | .types e a => e.occurrences ++ a.occurrences
  | .rows e a => e.occurrences ++ a.occurrences

/-- A binding at most doubles the height of what remains and leaves one variable fewer to bind. -/
def depth (g : Goal) : Nat :=
  (g.height + 1) * Nat.pow 4 g.occurrences.length

def pairs (es as : List Ty) : List Goal :=
  (es.zip as).map fun (e, a) => .types e a

end Goal

inductive Meeting where
  | bind (v : TypeVar) (ty : Ty)
  | parts (part : Part) (goals : List Goal)
  | rows (expected actual : Row)
  | clash (failure : Failure) (error : UnifyError)
  deriving DecidableEq, Inhabited

namespace Ty

def clash (expected actual : Ty) : Meeting :=
  .clash .mismatch (.mismatch expected actual)

def clashRecords (positional expected actual : Ty) : Meeting :=
  if positional.positionalLabels?.isSome then .clash .representation (.representation expected actual)
  else clash expected actual

def meet (expected actual : Ty) : Meeting :=
  match expected, actual with
  | .var v, _ => .bind v actual
  | _, .var v => .bind v expected
  | .app h es, .app h' as =>
      if es.length = as.length then .parts .application (.types h h' :: Goal.pairs es as)
      else clash expected actual
  | .list e, .list a => .parts .listElement [.types e a]
  | .tuple es, .tuple as =>
      if es.length = as.length then .parts .tupleElements (Goal.pairs es as)
      else .clash .tupleArity (.tupleArity es.length as.length)
  | .fn ps e r, .fn ps' e' r' =>
      if ps.length = ps'.length then
        .parts .function (Goal.pairs ps ps' ++ [.rows (Effects.toRow e) (Effects.toRow e'), .types r r'])
      else .clash .functionArity (.arity ps.length ps'.length)
  | .record r, .record r' => .rows r r'
  | .record _, .app _ _ => clashRecords actual expected actual
  | .app _ _, .record _ => clashRecords expected expected actual
  | _, _ => clash expected actual

end Ty

namespace Row

def common (r r' : Row) : List (Label × Ty × Ty) :=
  r.fields.filterMap fun (l, t) => (r'.get? l).map fun t' => (l, t, t')

def only (r r' : Row) : List (Label × Ty) :=
  r.fields.filter fun f => !r'.has f.1

end Row

end RowTyping
