import RowTyping.Substitution
import RowTyping.Diagnostic.Basic
import RowTyping.Unify.Supply
import RowTyping.Unify.Goal
import RowTyping.Walk

namespace RowTyping

structure Unifier where
  subst : Substitution
  supply : Supply
  errors : List Diagnostic
  tracing : Bool
  steps : List Step
  deriving Inhabited

abbrev UnifyM := TryM UnifyError Unifier

namespace Unifier

def ofSupply (supply : Supply) : Unifier :=
  ⟨.empty, supply, [], false, []⟩

def enableTracing (u : Unifier) : Unifier :=
  { u with tracing := true }

def trace (u : Unifier) : List Step :=
  u.steps.reverse

def apply (u : Unifier) (t : Ty) : Ty :=
  u.subst.apply t

def pushError (u : Unifier) (d : Diagnostic) : Unifier :=
  { u with errors := u.errors ++ [d] }

def bindDefault (u : Unifier) (v : TypeVarId) (t : Ty) : Unifier :=
  if (u.subst.lookupType v).isNone then { u with subst := u.subst.bindType v t } else u

def bindDefaults (u : Unifier) (defaults : Substitution) : Unifier :=
  defaults.types.foldl (fun u e => u.bindDefault e.1 e.2) u

def note (action : Action) (left right : Ty) : UnifyM Unit :=
  modify fun u => { u with steps := if u.tracing then ⟨action, left, right⟩ :: u.steps else u.steps }

def freshRow : UnifyM RowVarId :=
  modifyGet fun u =>
    let (id, supply) := u.supply.freshRow
    (id, { u with supply })

def bindTypeVar (v : TypeVar) (t : Ty) : UnifyM Unit := do
  let left := Ty.var v
  if t = left then return
  if t.typeVars.contains v.id && !t.isVar then
    note .typeOccurs left t
    throw (.occurs v t)
  if v.kind ≠ t.kind then
    note .typeKinds left t
    throw (.kind v.kind t.kind)
  note (.bind v.id t) left t
  modify fun u => { u with subst := u.subst.bindType v.id t }

def bindTail (v : RowVarId) (r : Row) : UnifyM Unit := do
  if r.rest = some v ∧ r.isEmpty then return
  let shown := Ty.record r
  if r.rowVars.contains v then
    note (.tailOccurs v) shown shown
    throw (.rowOccurs v r)
  note (.bindTail v r) shown shown
  modify fun u => { u with subst := u.subst.bindRow v r }

def failLabels (shown : Row) (missing extra : List Label) : UnifyM Unit := do
  note (.fail (.labels missing extra)) (.record shown) (.record shown)
  throw (.rows shown.kind missing extra)

def requireSameLabels (shown : Row) (missing extra : List Label) : UnifyM Unit :=
  if missing.isEmpty && extra.isEmpty then pure () else failLabels shown missing extra

def unifyTails (expected actual : Row) : UnifyM Unit := do
  let onlyExpected := expected.only actual
  let onlyActual := actual.only expected
  match expected.rest, actual.rest with
  | none, none => requireSameLabels expected (OrderedMap.keys onlyExpected) (OrderedMap.keys onlyActual)
  | some r, none =>
      if onlyExpected.isEmpty then bindTail r ⟨expected.kind, onlyActual, none⟩
      else failLabels expected (OrderedMap.keys onlyExpected) []
  | none, some r =>
      if onlyActual.isEmpty then bindTail r ⟨actual.kind, onlyExpected, none⟩
      else failLabels expected [] (OrderedMap.keys onlyActual)
  | some r, some r' =>
      if r = r' then requireSameLabels expected (OrderedMap.keys onlyExpected) (OrderedMap.keys onlyActual)
      else if onlyExpected.isEmpty && onlyActual.isEmpty then bindTail r ⟨expected.kind, [], some r'⟩
      else
        let shared ← freshRow
        note (.shareTail r r' shared) (.record expected) (.record actual)
        bindTail r ⟨expected.kind, onlyActual, some shared⟩
        bindTail r' ⟨actual.kind, onlyExpected, some shared⟩

def inField (l : Label) (run : UnifyM Unit) : UnifyM Unit :=
  tryCatch run fun source => throw (.field l source)

def isBound (u : Unifier) (tail : Option RowVarId) : Bool :=
  tail.any fun r => (u.subst.lookupRow r).isSome

def solve : Nat → Goal → UnifyM Unit
  | 0, _ => throw .circular
  | n + 1, .types expected actual => do
      let s := (← get).subst
      let expected := s.apply expected
      let actual := s.apply actual
      if expected = actual then note .identity expected actual
      else
        match expected.meet actual with
        | .bind v t => bindTypeVar v t
        | .parts part goals =>
            note (.decompose part) expected actual
            goals.forM (solve n)
        | .rows r r' => solve n (.rows r r')
        | .clash failure error =>
            note (.fail failure) expected actual
            throw error
  | n + 1, .rows expected actual => do
      if expected.kind ≠ actual.kind then
        note (.rowKinds expected.kind actual.kind) (.record expected) (.record actual)
        throw (.kind expected.kind actual.kind)
      let s := (← get).subst
      let expected := s.applyRow expected
      let actual := s.applyRow actual
      if expected = actual then return
      note .enterRows (.record expected) (.record actual)
      (expected.common actual).forM fun (l, e, a) => inField l (solve n (.types e a))
      let u ← get
      -- A common field may have bound a tail: go on with what is left of the rows.
      if u.isBound expected.rest || u.isBound actual.rest then
        solve n (.rows { expected with fields := expected.only actual }
          { actual with fields := actual.only expected })
      else unifyTails expected actual

def applyGoal (u : Unifier) : Goal → Goal
  | .types e a => .types (u.subst.apply e) (u.subst.apply a)
  | .rows e a => .rows (u.subst.applyRow e) (u.subst.applyRow a)

def attempt (g : Goal) : UnifyM Unit := do
  let u ← get
  solve (u.applyGoal g).depth g

def run (g : Goal) (u : Unifier) : Except UnifyError Unit × Unifier :=
  attempt g u

def unify (u : Unifier) (expected actual : Ty) : Except UnifyError Unit × Unifier :=
  run (.types expected actual) u

def unifyRows (u : Unifier) (expected actual : Row) : Except UnifyError Unit × Unifier :=
  run (.rows expected actual) u

end Unifier

end RowTyping
