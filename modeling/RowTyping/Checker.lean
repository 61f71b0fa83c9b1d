import RowTyping.Infer.Expr
import RowTyping.Provider

namespace RowTyping

inductive CheckError where
  | type (ds : List Diagnostic)
  | internal (v : InvariantViolation)
  deriving DecidableEq, Inhabited

def CheckError.text : CheckError → String
  | .type ds => Diagnostic.summary ds
  | .internal v => "internal type checker error: " ++ v.text

structure CheckTrace where
  unify : List Step
  infer : List InferStep
  deriving DecidableEq, Inhabited

structure CheckedProgram where
  decls : List TypedDecl
  schemes : OrderedMap String Scheme
  resolved : ResolutionTable
  trace : Option CheckTrace

structure CheckedExpr where
  typed : TypedExpr
  resolved : ResolutionTable
  trace : Option CheckTrace

structure Checker where
  config : Config
  registry : Registry
  globals : Env
  deriving Inhabited

namespace Checker

def buildRegistry (config : Config) (p : Provider) : List Diagnostic × Registry :=
  let (refused, r) := Registry.empty.registerAll p.classes (if config.loadInstances then p.instances else [])
  (refused, if config.loadInstances then r else { r with events := .instancesSuppressed :: r.events })

def readyEvent (r : Registry) : Event :=
  .checkerReady r.classes.length r.allInstances.length

def build (config : Config) (p : Provider) (counters : Counters) :
    Except (List Diagnostic) (Checker × Counters) × List Event :=
  let (refused, r) := buildRegistry config p
  let events := r.events.reverse
  if refused.isEmpty then
    let (supply, counters) := counters.allocate
    let registry := { r with moduleDefault := p.moduleDefault }.freeze
    let globals := Env.empty.bindAll (p.values supply).1
    (.ok (⟨config, registry, globals⟩, counters), events ++ [readyEvent r])
  else (.error refused, events)

variable (checker : Checker)

def session (signatures : EffectSignatures) : Session :=
  ⟨checker.registry, checker.config, signatures⟩

def context (supply : Supply) : Context :=
  let c := Context.ofSupply supply
  if checker.config.trace then c.enableTracing else c

def traceOf (c : Context) : Option CheckTrace :=
  if checker.config.trace then some ⟨c.unifier.trace, c.trace⟩ else none

def poison : InferM Scheme := do
  let v := TypeVar.star (← InferM.freshTypeVar)
  return ⟨[v], [], [], .var v⟩

def declare (failed : Bool) (name : String) (scheme : Scheme) : InferM Scheme := do
  let scheme ← if failed then poison else pure scheme
  modify (Context.log (.declared name scheme))
  return scheme

def declareAll (failed : Bool) : List TypedBinding → InferM (List TypedBinding)
  | [] => return []
  | b :: bs => do
      let scheme ← declare failed b.name b.scheme
      return { b with scheme } :: (← declareAll failed bs)

def checkDecl (session : Session) (env : Env) (d : Decl) : InferM TypedDecl := do
  let before := (← get).errors.length
  let failed : InferM Bool := return before < (← get).errors.length
  InferM.within d.label do
    match d with
    | .bind id name value =>
        let (scheme, value) ← inferBinding session env value .topLevel
        return .bind id name (← declare (← failed) name scheme) value
    | .bindRec id bindings =>
        let bindings ← inferRecGroup session env id bindings .topLevel
        return .bindRec id (← declareAll (← failed) bindings)
    | .expr e => return .expr (← inferTopLevel session env e)

def boundSchemes : TypedDecl → List (String × Scheme)
  | .bind _ name scheme _ => [(name, scheme)]
  | .bindRec _ bindings => bindings.map fun b => (b.name, b.scheme)
  | .expr _ => []

def checkDecls (session : Session) (env : Env) : List Decl → InferM (List TypedDecl)
  | [] => return []
  | d :: ds => do
      let d ← checkDecl session env d
      return d :: (← checkDecls session (env.bindAll (boundSchemes d)) ds)

def finish (exprs : List TypedExpr) (c : Context) : Except CheckError ResolutionTable × List Event :=
  let events := c.events.reverse
  match c.internal, c.errors with
  | some v, _ => (.error (.internal v), events)
  | none, [] => ((exprs.foldl ResolutionTable.assignMethods c.resolved).check.mapError .internal, events)
  | none, errors => (.error (.type errors), events ++ [.checkFailed errors.length])

def checkProgram (supply : Supply) (p : Program) : Except CheckError CheckedProgram × List Event :=
  let (decls, c) := (checkDecls (checker.session p.signatures) checker.globals p.decls).run (checker.context supply)
  let schemes := OrderedMap.ofList (decls.flatMap boundSchemes)
  let decls := decls.map c.subst.applyDecl
  let (table, events) := finish (decls.flatMap TypedDecl.exprs) c
  (table.map fun resolved => ⟨decls, schemes, resolved, checker.traceOf c⟩, events)

def checkExpr (supply : Supply) (signatures : EffectSignatures) (e : Expr) :
    Except CheckError CheckedExpr × List Event :=
  let infer := InferM.within (Decl.expr e).label (inferTopLevel (checker.session signatures) checker.globals e)
  let (typed, c) := infer.run (checker.context supply)
  let typed := c.subst.applyExpr typed
  let (table, events) := finish [typed] c
  (table.map fun resolved => ⟨typed, resolved, checker.traceOf c⟩, events)

end Checker

end RowTyping
