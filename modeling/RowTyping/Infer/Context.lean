import RowTyping.Classes.Resolution
import RowTyping.Infer.Rule
import RowTyping.Infer.Scopes
import RowTyping.Unify.Report
import RowTyping.Unify.Solver

namespace RowTyping

structure Equation where
  goal : Goal
  provenance : Provenance
  deriving DecidableEq, Inhabited

structure Context where
  unifier : Unifier
  equations : Scopes Equation
  classes : Scopes ClassConstraint
  path : SourcePath
  resolved : ResolutionTable
  internal : Option InvariantViolation
  steps : List InferStep
  events : List Event
  deriving Inhabited

abbrev InferM := Walk Context

namespace Context

def ofSupply (supply : Supply) : Context :=
  ⟨.ofSupply supply, .empty, .empty, [], [], none, [], []⟩

def subst (c : Context) : Substitution :=
  c.unifier.subst

def apply (c : Context) (t : Ty) : Ty :=
  c.unifier.apply t

def errors (c : Context) : List Diagnostic :=
  c.unifier.errors

def enableTracing (c : Context) : Context :=
  { c with unifier := c.unifier.enableTracing }

def isTracing (c : Context) : Bool :=
  c.unifier.tracing

def trace (c : Context) : List InferStep :=
  c.steps.reverse

def log (e : Event) (c : Context) : Context :=
  { c with events := e :: c.events }

def logAll (es : List Event) (c : Context) : Context :=
  { c with events := es.reverse ++ c.events }

def note (node : NodeId) (t : Ty) (rule : InferRule) (c : Context) : Context :=
  { c with steps := if c.isTracing then ⟨node, c.apply t, rule⟩ :: c.steps else c.steps }

def pushError (d : Diagnostic) (c : Context) : Context :=
  { c with unifier := c.unifier.pushError d }

def report (node : NodeId) (d : Diagnostic) (c : Context) : Context :=
  c.pushError (if d.path.isEmpty then d.located c.path (some node) else d)

def enter (label : String) (c : Context) : Context :=
  { c with path := c.path.push label }

def leave (c : Context) : Context :=
  { c with path := c.path.pop }

def shown (c : Context) : Goal → String × String
  | .types e a => Ty.displayPair (c.apply e) (c.apply a)
  | .rows e a => ((c.subst.applyRow e).text, (c.subst.applyRow a).text)

def solvingEvent (node : NodeId) : Goal → Event
  | .types e a => .solvingTypes e a node
  | .rows e a => .solvingRows e a node

def failure (c : Context) (q : Equation) (e : UnifyError) : Diagnostic :=
  let (expected, actual) := c.shown q.goal
  e.diagnostic expected actual q.provenance

def mapClasses (f : Ty → Ty) (c : Context) : Context :=
  { c with classes := c.classes.map (ClassConstraint.mapTy f) }

def applyClasses (c : Context) : Context :=
  c.mapClasses c.apply

def applyResolved (c : Context) : Context :=
  { c with resolved := c.resolved.apply c.subst }

def hasClass (c : Context) (t : Ty) (className : String) : Bool :=
  let target := c.apply t
  c.classes.toList.any fun k => k.className == className && c.apply k.ty == target

def liveTypeVars (c : Context) : OrderedSet TypeVarId :=
  .ofList (c.classes.toList.flatMap fun k => (c.apply k.ty).typeVars)

def failInternal (v : InvariantViolation) (c : Context) : Context :=
  { c.log (.invariantViolated v.text) with internal := c.internal.or (some v) }

def addEquation (node : NodeId) (reason : Reason) (g : Goal) (c : Context) : Context :=
  { c with equations := c.equations.push ⟨g, node, c.path, reason⟩ }

def addClass (className : String) (t : Ty) (node : NodeId) (origin : Origin) (c : Context) : Context :=
  { c with classes := c.classes.push ⟨className, t, c.path, node, origin⟩ }

def deferClasses (ks : List ClassConstraint) (c : Context) : Context :=
  { c with classes := c.classes.append ks }

def pushClassScope (c : Context) : Context :=
  { c with classes := c.classes.pushScope }

def bindDefault (v : TypeVarId) (t : Ty) (c : Context) : Context :=
  { c with unifier := c.unifier.bindDefault v t }

end Context

namespace InferM

def freshTypeVar : InferM TypeVarId :=
  modifyGet fun c =>
    let (v, supply) := c.unifier.supply.freshType
    (v, { c with unifier := { c.unifier with supply } })

def freshType : InferM Ty :=
  return .ofVar (← freshTypeVar)

def freshRow : InferM RowVarId :=
  modifyGet fun c =>
    let (r, supply) := c.unifier.supply.freshRow
    (r, { c with unifier := { c.unifier with supply } })

def applied (t : Ty) : InferM Ty :=
  return (← get).apply t

def takeEquations : InferM (List Equation) :=
  modifyGet fun c =>
    let (qs, equations) := c.equations.drain
    (qs, { c with equations })

def unify (g : Goal) : InferM (Except UnifyError Unit) :=
  Walk.zoom Context.unifier (fun c unifier => { c with unifier }) (Unifier.attempt g)

def solveEquation (q : Equation) : InferM Unit := do
  let answer ← unify q.goal
  modify (Context.log (Context.solvingEvent q.provenance.node q.goal))
  match answer with
  | .ok () => return
  | .error e => modify fun c => c.pushError (c.failure q e)

def flush : InferM Unit := do
  (← takeEquations).forM solveEquation

def solve : InferM Unit := do
  flush
  modify Context.applyClasses

def applyDefaults (defaults : Substitution) : InferM Unit := do
  if defaults.isEmpty then return
  defaults.types.forM fun e => modify (Context.bindDefault e.1 e.2)
  modify Context.applyClasses
  modify Context.applyResolved

def equate (node : NodeId) (reason : Reason) (expected actual : Ty) : InferM Unit :=
  modify (Context.addEquation node reason (.types expected actual))

def equateRows (node : NodeId) (reason : Reason) (expected actual : Row) : InferM Unit :=
  modify (Context.addEquation node reason (.rows expected actual))

def addClass (className : String) (t : Ty) (node : NodeId) (origin : Origin) : InferM Unit :=
  modify (Context.addClass className t node origin)

def takeClassScope : InferM (List ClassConstraint) :=
  modifyGet fun c =>
    let (ks, classes) := c.classes.takeScope
    (ks, { c with classes })

def report (node : NodeId) (d : Diagnostic) : InferM Unit :=
  modify (Context.report node d)

def note (node : NodeId) (t : Ty) (rule : InferRule) : InferM Unit :=
  modify (Context.note node t rule)

def within {α : Type} (label : String) (run : InferM α) : InferM α := do
  modify (Context.enter label)
  let a ← run
  modify Context.leave
  return a

end InferM

namespace Context

def solveEquation (c : Context) (q : Equation) : Context :=
  ((InferM.solveEquation q).run c).2

def flush (c : Context) : Context :=
  (InferM.flush.run c).2

def solve (c : Context) : Context :=
  (InferM.solve.run c).2

def applyDefaults (defaults : Substitution) (c : Context) : Context :=
  ((InferM.applyDefaults defaults).run c).2

variable (c : Context)

theorem solveEquation_eq (q : Equation) :
    c.solveEquation q =
      let (answer, u) := Unifier.run q.goal c.unifier
      let c := { c with unifier := u }.log (solvingEvent q.provenance.node q.goal)
      match answer with
      | .ok () => c
      | .error e => c.pushError (c.failure q e) := by
  let tell : Except UnifyError Unit → InferM Unit
    | .ok () => pure ()
    | .error e => modify fun c => c.pushError (c.failure q e)
  have hrun : c.solveEquation q =
      let (answer, u) := Unifier.run q.goal c.unifier
      ((tell answer).run ({ c with unifier := u }.log (solvingEvent q.provenance.node q.goal))).2 := rfl
  rw [hrun]
  rcases Unifier.run q.goal c.unifier with ⟨_ | _, u⟩ <;> rfl

theorem flush_eq : c.flush = c.equations.toList.foldl solveEquation { c with equations := .empty } := by
  have hforM (qs : List Equation) (c : Context) : ((qs.forM InferM.solveEquation).run c).2 = qs.foldl solveEquation c := by
    induction qs generalizing c with
    | nil => rfl
    | cons q qs ih => exact ih (c.solveEquation q)
  exact hforM _ _

theorem applyDefaults_eq (defaults : Substitution) :
    c.applyDefaults defaults =
      if defaults.isEmpty then c
      else { c with unifier := c.unifier.bindDefaults defaults }.applyClasses.applyResolved := by
  have hforM (es : List (TypeVarId × Ty)) (c : Context) :
      ((es.forM fun e => (modify (bindDefault e.1 e.2) : InferM Unit)).run c).2 =
        { c with unifier := es.foldl (fun u e => u.bindDefault e.1 e.2) c.unifier } := by
    induction es generalizing c with
    | nil => rfl
    | cons e es ih => exact ih (c.bindDefault e.1 e.2)
  by_cases h : defaults.isEmpty = true
  · rw [if_pos h, applyDefaults, InferM.applyDefaults, if_pos h]
    rfl
  · rw [if_neg h, applyDefaults, InferM.applyDefaults, if_neg h]
    exact congrArg (fun c => c.applyClasses.applyResolved) (hforM defaults.types c)

end Context

end RowTyping
