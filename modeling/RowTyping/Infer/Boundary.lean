import RowTyping.Classes.Defaulting
import RowTyping.Config
import RowTyping.Infer.Env
import RowTyping.Infer.Generalize
import RowTyping.Typed.Apply

namespace RowTyping

structure Session where
  registry : Registry
  config : Config
  signatures : EffectSignatures
  deriving Inhabited

inductive BindingLevel where
  | topLevel
  | nested
  deriving DecidableEq, Repr, Inhabited

def classRemedy : String → String
  | "Eq" => "type must support equality"
  | "Ord" => "type must support ordering"
  | "Show" => "type must be printable"
  | "Num" => "type must be numeric"
  | "Fractional" => "type must support fractional division"
  | "Integral" => "type must support integer division"
  | _ => "add an instance for this type or annotate it"

namespace Ty

def latentTail : Ty → Option RowVarId
  | .fn _ e _ => Effects.tail e
  | _ => none

end Ty

def attaches (quantified : List TypeVarId) (k : ClassConstraint) : Bool :=
  !k.ty.typeVars.isEmpty && k.ty.typeVars.all quantified.contains

def attached (quantified : List TypeVarId) (pending : List ClassConstraint) : List Predicate :=
  ((pending.filter (attaches quantified)).map fun k => ⟨k.className, k.ty⟩).eraseDups

namespace InferM

def closeResultEffects (node : NodeId) (ts : List Ty) (envRowVars : List RowVarId) : InferM Unit := do
  let c ← get
  let ts := ts.map c.apply
  let tails := (ts.filterMap Ty.latentTail).filter fun r =>
    !envRowVars.contains r && (Ty.tuple ts).countRowVar r == 1
  if tails.isEmpty then return
  tails.forM fun r => equateRows node .effectJoin (.closedEffects []) (.openEffects [] r)
  flush

def resolveGround (r : Registry) (rejected : List TypeVarId) (reported : List (String × String)) :
    List ClassConstraint → InferM (List ClassConstraint)
  | [] => return []
  | k :: ks => do
      if k.ty.typeVars.any rejected.contains then resolveGround r rejected reported ks
      else if !k.isGround then return k :: (← resolveGround r rejected reported ks)
      else
        match r.resolve k with
        | .ok e =>
            modify (Context.log e.event)
            note k.node k.ty (.resolve k.className)
            if k.origin ≠ .literal then
              modify fun c => { c with resolved := c.resolved.record e }
            resolveGround r rejected reported ks
        | .error (.missing d) =>
            let key := (k.className, k.ty.text)
            if reported.contains key then resolveGround r rejected reported ks
            else
              report k.node d
              resolveGround r rejected (key :: reported) ks
        | .error (.internal v) =>
            modify (Context.failInternal v)
            resolveGround r rejected reported ks

def reportUnsolved (seen : List (String × String)) : List ClassConstraint → InferM Unit
  | [] => return
  | k :: ks => do
      let shown := k.ty.display
      if seen.contains (k.className, shown) then reportUnsolved seen ks
      else
        let d := Diagnostic.error .unsolvedConstraint ("unsolved constraint " ++ k.className ++ " " ++ shown)
        report k.node ((d.located k.path (some k.node)).withHelp (classRemedy k.className))
        reportUnsolved ((k.className, shown) :: seen) ks

def schemeOf (node : NodeId) (envTypeVars : List TypeVarId) (envRowVars : List RowVarId)
    (pending : List ClassConstraint) (t : Ty) : InferM Scheme := do
  let scheme := t.generalize (attached (t.typeVars.diff envTypeVars) pending) envTypeVars envRowVars
  modify (Context.log (.generalized node scheme))
  note node t (.generalize scheme)
  return scheme

def applyOutcome (node : NodeId) (monotype : Ty) (outcome : DefaultingOutcome) : InferM Unit := do
  modify (Context.logAll outcome.events)
  outcome.errors.forM (report node)
  if !outcome.subst.isEmpty then
    note node monotype (.default outcome.subst.types.values)
  applyDefaults outcome.subst

def closeBoundary (session : Session) (env : Env) (node : NodeId) (ts : List Ty) (level : BindingLevel)
    (generalizable : Bool) : InferM (List Scheme) := do
  solve
  let c ← get
  let constraints := c.classes.innermost
  let envTypeVars := env.freeTypeVars c.subst
  let envRowVars := env.freeRowVars c.subst
  closeResultEffects node ts envRowVars
  let monotype := Ty.tuple (ts.map (← get).apply)
  let mode := if level = .topLevel ∧ !generalizable then .topLevel else .boundary
  let outcome := defaultConstraints monotype constraints envTypeVars session.registry mode
  applyOutcome node monotype outcome
  let constraints ← takeClassScope
  let ts := ts.map (← get).apply
  let pending ← resolveGround session.registry outcome.rejected [] constraints
  let schemes ←
    if generalizable then ts.mapM (schemeOf node envTypeVars envRowVars pending)
    else pure (ts.map Scheme.mono)
  let leftovers := pending.filter fun k =>
    !(generalizable && ts.any fun t => attaches (t.typeVars.diff envTypeVars) k)
  match level with
  | .nested => modify (Context.deferClasses leftovers)
  | .topLevel => reportUnsolved [] leftovers
  return schemes

def binding (session : Session) (env : Env) (value : Expr) (level : BindingLevel) (infer : InferM TypedExpr) :
    InferM (Scheme × TypedExpr) := do
  modify Context.pushClassScope
  let typed ← infer
  let schemes ← closeBoundary session env value.id [typed.ty] level value.isValue
  let typed := (← get).subst.applyExpr typed
  return (schemes.headD (.mono typed.ty), typed)

def topLevel (session : Session) (env : Env) (e : Expr) (infer : InferM TypedExpr) : InferM TypedExpr := do
  modify Context.pushClassScope
  let typed ← infer
  let _ ← closeBoundary session env e.id [typed.ty] .topLevel false
  return (← get).subst.applyExpr typed

def recGroup (session : Session) (env : Env) (node : NodeId) (bindings : List Binding) (level : BindingLevel)
    (infer : Env → List Ty → InferM (List TypedExpr)) : InferM (List TypedBinding) := do
  modify Context.pushClassScope
  let placeholders ← bindings.mapM fun _ => freshType
  let inner := env.nest ((bindings.map Prod.fst).zip (placeholders.map Scheme.mono))
  let values ← infer inner placeholders
  let generalizable := bindings.all fun b => b.2.isValue
  let schemes ← closeBoundary session env node placeholders level generalizable
  let s := (← get).subst
  return ((bindings.map Prod.fst).zip (values.zip schemes)).map fun (name, value, scheme) =>
    ⟨name, scheme, s.applyExpr value⟩

end InferM

end RowTyping
