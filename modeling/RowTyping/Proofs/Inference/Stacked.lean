import RowTyping.Infer.Expr

namespace RowTyping

abbrev StackM := Walk (Env × Context)

namespace Stacked

open InferM

instance : MonadLift InferM StackM :=
  ⟨Walk.zoom Prod.snd fun s c => (s.1, c)⟩

def environment : StackM Env :=
  return (← get).1

def change (f : Env → Env) : StackM Unit :=
  modify fun s => (f s.1, s.2)

def pushScope : StackM Unit :=
  change Env.pushScope

def popScope : StackM Unit :=
  change Env.popScope

def define (name : String) (scheme : Scheme) : StackM Unit :=
  change fun env => env.bind name scheme

def defineAll (bindings : List (String × Scheme)) : StackM Unit :=
  bindings.forM fun b => define b.1 b.2

def declare (names : List String) : StackM (List Ty) :=
  names.mapM fun name => do
    let t ← freshType
    define name (.mono t)
    return t

def within {α : Type} (label : String) (run : StackM α) : StackM α := do
  (modify (Context.enter label) : InferM Unit)
  let a ← run
  (modify Context.leave : InferM Unit)
  return a

variable (session : Session)

section Boundaries

def binding (value : Expr) (level : BindingLevel) (infer : StackM TypedExpr) : StackM (Scheme × TypedExpr) := do
  (modify Context.pushClassScope : InferM Unit)
  let typed ← infer
  let schemes ← closeBoundary session (← environment) value.id [typed.ty] level value.isValue
  let c ← (get : InferM Context)
  let typed := c.subst.applyExpr typed
  return (schemes.headD (.mono typed.ty), typed)

def topLevel (e : Expr) (infer : StackM TypedExpr) : StackM TypedExpr := do
  (modify Context.pushClassScope : InferM Unit)
  let typed ← infer
  let _ ← closeBoundary session (← environment) e.id [typed.ty] .topLevel false
  let c ← (get : InferM Context)
  return c.subst.applyExpr typed

def recGroup (node : NodeId) (bindings : List Binding) (level : BindingLevel) (infer : List Ty → StackM (List TypedExpr)) :
    StackM (List TypedBinding) := do
  (modify Context.pushClassScope : InferM Unit)
  pushScope
  let placeholders ← declare (bindings.map Prod.fst)
  let values ← infer placeholders
  popScope
  let generalizable := bindings.all fun b => b.2.isValue
  let schemes ← closeBoundary session (← environment) node placeholders level generalizable
  let c ← (get : InferM Context)
  return ((bindings.map Prod.fst).zip (values.zip schemes)).map fun (name, value, scheme) =>
    ⟨name, scheme, c.subst.applyExpr value⟩

end Boundaries

section Forms

variable (id : NodeId)

def variableUse (name : String) : StackM TypedExpr := do
  InferM.variableUse (← environment) id name

def function (lambda : Expr) (params : List String) (inferBody : StackM TypedExpr) : StackM TypedExpr := do
  let (params, body, latent) ← within "lambda" do
    checkCaptures session (← environment) lambda
    pushScope
    let types ← declare params
    let body ← inferBody
    popScope
    return (params.zip types, body, ← latentEffects session lambda.id body.effects)
  return .lambda (pureNode lambda.id (.fn (params.map Prod.snd) latent body.ty)) params body

def application (func : Expr) (inferFunc : StackM TypedExpr) (inferArgs : StackM (List TypedExpr)) : StackM TypedExpr := do
  let (func, args, result, latent) ← within (callLabel func) do
    let func ← inferFunc
    let args ← inferArgs
    flush
    let (result, latent) ← callee id func.id args (← applied func.ty)
    flush
    return (func, args, result, latent)
  let effects ← joinEffects id (func.effects :: args.map TypedExpr.effects ++ [latent])
  return .app ⟨id, result, effects⟩ func args

def letIn (name : String) (value : Expr) (inferValue inferBody : StackM TypedExpr) : StackM TypedExpr := do
  let (scheme, value) ← within (Decl.letLabel name) (binding session value .nested inferValue)
  pushScope
  defineAll [(name, scheme)]
  let body ← inferBody
  popScope
  let effects ← joinEffects id [value.effects, body.effects]
  return .letIn ⟨id, body.ty, effects⟩ name scheme value body

def letRec (bindings : List Binding) (inferValues : List Ty → StackM (List TypedExpr)) (inferBody : StackM TypedExpr) :
    StackM TypedExpr := do
  let bindings ← within (Decl.letRecLabel bindings) (recGroup session id bindings .nested inferValues)
  pushScope
  defineAll (bindings.map fun b => (b.name, b.scheme))
  let body ← inferBody
  popScope
  let effects ← joinEffects id (bindings.map (fun b => b.value.effects) ++ [body.effects])
  return .letRec ⟨id, body.ty, effects⟩ bindings body

def cond (inferCondition inferThen inferElse : StackM TypedExpr) : StackM TypedExpr := do
  let (c, t, e) ← within "if" do
    let c ← inferCondition
    equate c.id .ifCondition .bool c.ty
    let t ← inferThen
    let e ← inferElse
    equate id .ifBranches t.ty e.ty
    return (c, t, e)
  let effects ← joinEffects id [c.effects, t.effects, e.effects]
  return .cond ⟨id, t.ty, effects⟩ c t e

def binary (op : BinaryOp) (inferLeft inferRight : StackM TypedExpr) : StackM TypedExpr := do
  let left ← inferLeft
  let right ← inferRight
  InferM.binary id op (pure left) (pure right)

def unary (op : UnaryOp) (inferOperand : StackM TypedExpr) : StackM TypedExpr := do
  let operand ← inferOperand
  InferM.unary id op (pure operand)

def record (inferFields : StackM (List (String × TypedExpr))) : StackM TypedExpr := do
  let fields ← inferFields
  InferM.record session id (pure fields)

def field (inferRecord : StackM TypedExpr) (name : String) : StackM TypedExpr := do
  let base ← inferRecord
  InferM.field id (pure base) name

def update (inferRecord : StackM TypedExpr)
    (inferFields : (String → TypedExpr → InferM Unit) → StackM (List (String × TypedExpr))) : StackM TypedExpr := do
  let base ← inferRecord
  flush
  let t ← applied base.ty
  let fields? := knownFields? t
  if fields?.isNone then report id (unknownShape t)
  let fields ← inferFields (replaceField t fields?)
  let effects ← joinEffects id (base.effects :: fields.map fun f => f.2.effects)
  return .update ⟨id, t, effects⟩ base fields

def list (inferElems : (TypedExpr → InferM Unit) → StackM (List TypedExpr)) : StackM TypedExpr := do
  let elem ← freshType
  let elems ← inferElems fun e => equate e.id .listElement elem e.ty
  let effects ← joinEffects id (elems.map TypedExpr.effects)
  return .list ⟨id, .list elem, effects⟩ elems

def tuple (inferElems : StackM (List TypedExpr)) : StackM TypedExpr := do
  let elems ← inferElems
  InferM.tuple id (pure elems)

def arm (index : Nat) (scrutinee result : Ty) (pattern : Pattern) (inferBody : StackM TypedExpr) : StackM (TypedPattern × TypedExpr) :=
  within ("arm " ++ toString (index + 1)) do
    let (p, bound) ← inferPattern session [] pattern
    equate p.id .patternMatch scrutinee p.ty
    pushScope
    defineAll (bound.mapValues Scheme.mono)
    let body ← inferBody
    popScope
    equate body.id .matchArms result body.ty
    return (p, body)

def caseOf (inferScrutinee : StackM TypedExpr) (inferArms : Ty → Ty → StackM (List (TypedPattern × TypedExpr))) :
    StackM TypedExpr := do
  let (scrutinee, result, arms) ← within "match" do
    let scrutinee ← inferScrutinee
    let result ← freshType
    return (scrutinee, result, ← inferArms scrutinee.ty result)
  let effects ← joinEffects id (scrutinee.effects :: arms.map fun a => a.2.effects)
  return .caseOf ⟨id, result, effects⟩ scrutinee arms

def noted (e : Expr) (infer : StackM TypedExpr) : StackM TypedExpr := do
  let typed ← infer
  let c ← (get : InferM Context)
  if c.isTracing then note e.id typed.ty (.ofExpr e)
  return typed

end Forms

mutual

def inferExpr : Expr → StackM TypedExpr
  | .lit id l => noted (.lit id l) do
      return .lit (pureNode id (← literalType id l)) l
  | .var id name => noted (.var id name) (variableUse id name)
  | .lambda id params body => noted (.lambda id params body) (function session (.lambda id params body) params (inferExpr body))
  | .app id func args => noted (.app id func args) (application id func (inferExpr func) (inferExprs (fun _ => pure ()) args))
  | .letIn id name value body => noted (.letIn id name value body)
      (letIn session id name value (inferExpr value) (inferExpr body))
  | .letRec id bindings body => noted (.letRec id bindings body)
      (letRec session id bindings (fun ts => inferValues ts bindings) (inferExpr body))
  | .cond id c t e => noted (.cond id c t e) (cond id (inferExpr c) (inferExpr t) (inferExpr e))
  | .binary id op l r => noted (.binary id op l r) (binary id op (inferExpr l) (inferExpr r))
  | .unary id op e => noted (.unary id op e) (unary id op (inferExpr e))
  | .record id fs => noted (.record id fs) (record session id (inferFields duplicateField [] fs))
  | .field id e name => noted (.field id e name) (field id (inferExpr e) name)
  | .update id e fs => noted (.update id e fs) (update id (inferExpr e) fun after => inferFields (fun _ => after) [] fs)
  | .list id es => noted (.list id es) (list id fun after => inferExprs after es)
  | .tuple id es => noted (.tuple id es) (tuple id (inferExprs (fun _ => pure ()) es))
  | .caseOf id e arms => noted (.caseOf id e arms)
      (caseOf id (inferExpr e) fun scrutinee result => inferArms scrutinee result 0 arms)
termination_by structural e => e

def inferExprs (after : TypedExpr → InferM Unit) : List Expr → StackM (List TypedExpr)
  | [] => return []
  | e :: es => do
      let e ← inferExpr e
      after e
      return e :: (← inferExprs after es)
termination_by structural es => es

def inferFields (after : List String → String → TypedExpr → InferM Unit) (earlier : List String) :
    List (String × Expr) → StackM (List (String × TypedExpr))
  | [] => return []
  | (name, e) :: fs => do
      let e ← within (fieldLabel name) (inferExpr e)
      after earlier name e
      return (name, e) :: (← inferFields after (name :: earlier) fs)
termination_by structural fs => fs

def inferValues (placeholders : List Ty) : List (String × Expr) → StackM (List TypedExpr)
  | [] => return []
  | (_, e) :: bs => do
      let value ← inferExpr e
      equate value.id .letRec (placeholders.headD value.ty) value.ty
      return value :: (← inferValues placeholders.tail bs)
termination_by structural bs => bs

def inferArms (scrutinee result : Ty) (index : Nat) : List (Pattern × Expr) → StackM (List (TypedPattern × TypedExpr))
  | [] => return []
  | (p, e) :: arms => do
      let typed ← arm session index scrutinee result p (inferExpr e)
      return typed :: (← inferArms scrutinee result (index + 1) arms)
termination_by structural arms => arms

end

def inferBinding (value : Expr) (level : BindingLevel) : StackM (Scheme × TypedExpr) :=
  binding session value level (inferExpr session value)

def inferTopLevel (e : Expr) : StackM TypedExpr :=
  topLevel session e (inferExpr session e)

def inferRecGroup (node : NodeId) (bindings : List Binding) (level : BindingLevel) : StackM (List TypedBinding) :=
  recGroup session node bindings level fun ts => inferValues session ts bindings

section Mirrors

variable {α β : Type} {env : Env} {session : Session}

/-- The run does what the other run does and passes through every context that the other run passes through; it takes the environment
to what `after` says of its result. -/
structure Mirrors (m : StackM α) (env : Env) (m' : InferM α) (after : α → Env) : Prop where
  run : ∀ c, m.run (env, c) = ((m'.run c).1, after (m'.run c).1, (m'.run c).2)
  passed : ∀ c, ∀ c' ∈ m'.passed c, ∃ env', (env', c') ∈ m.passed (env, c)

abbrev Balances (m : StackM α) (env : Env) (m' : InferM α) : Prop :=
  Mirrors m env m' fun _ => env

theorem balances_pure (a : α) : Balances (pure a) env (pure a) :=
  ⟨fun _ => rfl, fun _ _ hc' => (nomatch hc')⟩

theorem balances_lift (m : InferM α) : Balances (liftM m) env m :=
  ⟨fun _ => rfl, fun _ _ hc' => ⟨env, List.mem_map_of_mem hc'⟩⟩

theorem Mirrors.bind {m : StackM α} {m' : InferM α} {f : α → StackM β} {f' : α → InferM β} {after : α → Env} {after' : β → Env}
    (hm : Mirrors m env m' after) (hf : ∀ a, Mirrors (f a) (after a) (f' a) after') : Mirrors (m >>= f) env (m' >>= f') after' where
  run c := by
    rw [Walk.run_bind, hm.run, (hf _).run]
    rfl
  passed c c' hc' := by
    simp only [Walk.passed_bind, List.mem_append, hm.run] at hc' ⊢
    rcases hc' with hc' | hc'
    · obtain ⟨env', hmem⟩ := hm.passed c c' hc'
      exact ⟨env', .inl hmem⟩
    · obtain ⟨env', hmem⟩ := (hf _).passed _ c' hc'
      exact ⟨env', .inr hmem⟩

theorem balances_answer (m : InferM α) (f : α → β) : Balances (liftM m >>= fun a => pure (f a)) env (m >>= fun a => pure (f a)) :=
  (balances_lift m).bind fun a => balances_pure (f a)

theorem mirrors_environment {f : Env → StackM α} {m' : InferM α} {after : α → Env} (h : Mirrors (f env) env m' after) :
    Mirrors (environment >>= f) env m' after :=
  ⟨h.run, h.passed⟩

theorem mirrors_change {g : Env → Env} {m : StackM α} {m' : InferM α} {after : α → Env} (h : Mirrors m (g env) m' after) :
    Mirrors (change g >>= fun _ => m) env m' after where
  run := h.run
  passed c c' hc' := by
    obtain ⟨env', hmem⟩ := h.passed c c' hc'
    exact ⟨env', List.mem_append_right _ hmem⟩

theorem balances_ite {p : Prop} [Decidable p] {m m₁ : StackM α} {m' m₁' : InferM α} (h : p → Balances m env m')
    (h' : ¬ p → Balances m₁ env m₁') : Balances (if p then m else m₁) env (if p then m' else m₁') := by
  split
  next hp => exact h hp
  next hp => exact h' hp

theorem Mirrors.within {m : StackM α} {m' : InferM α} (h : Balances m env m') (label : String) :
    Balances (within label m) env (InferM.within label m') := by
  refine (balances_lift _).bind fun _ => ?_
  refine h.bind fun a => ?_
  exact balances_answer _ fun _ => a

section Scopes

theorem mirrors_defineAll (bs : List (String × Scheme)) {m : StackM α} {m' : InferM α} {after : α → Env}
    (h : Mirrors m (env.bindAll bs) m' after) : Mirrors (defineAll bs >>= fun _ => m) env m' after := by
  induction bs generalizing env with
  | nil => exact h
  | cons b bs ih =>
      have hrest : Mirrors (defineAll bs >>= fun _ => m) (env.bind b.1 b.2) m' after := ih h
      rw [defineAll, List.forM_eq_forM, List.forM_cons, bind_assoc]
      exact mirrors_change hrest

theorem mirrors_declare (names : List String) : Mirrors (declare names) env (names.mapM fun _ => freshType) fun ts =>
    env.bindAll ((names.zip ts).map fun b => (b.1, .mono b.2)) := by
  induction names generalizing env with
  | nil => exact balances_pure []
  | cons name names ih =>
      rw [declare, List.mapM_cons, List.mapM_cons]
      simp only [bind_assoc, pure_bind]
      refine (balances_lift freshType).bind fun t => ?_
      apply mirrors_change
      have hrest : Mirrors (declare names) (env.bind name (.mono t)) (names.mapM fun _ => freshType) _ := ih
      refine hrest.bind fun ts => ?_
      exact ⟨fun _ => rfl, fun _ _ hc' => (nomatch hc')⟩

theorem balances_popScope {bs : List (String × Scheme)} {f : StackM α} {f' : InferM α} (h : Balances f env f') :
    Mirrors (popScope >>= fun _ => f) (env.nest bs) f' fun _ => env := by
  apply mirrors_change
  rw [Env.popScope_nest]
  exact h

theorem balances_defined {bs : List (String × Scheme)} {m : StackM α} {m' : InferM α} (hm : Balances m (env.nest bs) m')
    {f : α → StackM β} {f' : α → InferM β} (hf : ∀ a, Balances (f a) env (f' a)) :
    Balances (pushScope >>= fun _ => defineAll bs >>= fun _ => m >>= fun a => popScope >>= fun _ => f a) env (m' >>= f') := by
  apply mirrors_change
  apply mirrors_defineAll bs
  refine hm.bind fun a => ?_
  exact balances_popScope (hf a)

theorem balances_declared (names : List String) {m : List Ty → StackM α} {m' : List Ty → InferM α}
    (hm : ∀ ts, Balances (m ts) (env.nest ((names.zip ts).map fun b => (b.1, .mono b.2))) (m' ts))
    {f : List Ty → α → StackM β} {f' : List Ty → α → InferM β} (hf : ∀ ts a, Balances (f ts a) env (f' ts a)) :
    Balances (pushScope >>= fun _ => declare names >>= fun ts => m ts >>= fun a => popScope >>= fun _ => f ts a) env
      ((names.mapM fun _ => freshType) >>= fun ts => m' ts >>= f' ts) := by
  apply mirrors_change
  refine (mirrors_declare names).bind fun ts => ?_
  refine (hm ts).bind fun a => ?_
  exact balances_popScope (hf ts a)

end Scopes

section Boundaries

theorem balances_binding (value : Expr) (level : BindingLevel) {m : StackM TypedExpr} {m' : InferM TypedExpr} (h : Balances m env m') :
    Balances (binding session value level m) env (InferM.binding session env value level m') := by
  refine Mirrors.bind (balances_lift _) fun _ => ?_
  refine Mirrors.bind h fun typed => ?_
  apply mirrors_environment
  refine Mirrors.bind (balances_lift _) fun schemes => ?_
  exact balances_answer get _

theorem balances_topLevel (e : Expr) {m : StackM TypedExpr} {m' : InferM TypedExpr} (h : Balances m env m') :
    Balances (topLevel session e m) env (InferM.topLevel session env e m') := by
  refine Mirrors.bind (balances_lift _) fun _ => ?_
  refine Mirrors.bind h fun typed => ?_
  apply mirrors_environment
  refine Mirrors.bind (balances_lift _) fun _ => ?_
  exact balances_answer get _

theorem balances_recGroup (node : NodeId) (bindings : List Binding) (level : BindingLevel) {infer : List Ty → StackM (List TypedExpr)}
    {infer' : Env → List Ty → InferM (List TypedExpr)} (h : ∀ env ts, Balances (infer ts) env (infer' env ts)) :
    Balances (recGroup session node bindings level infer) env (InferM.recGroup session env node bindings level infer') := by
  have hfresh : (bindings.mapM fun _ => freshType) = (bindings.map Prod.fst).mapM fun _ => freshType :=
    (List.mapM_map (f := Prod.fst) (g := fun _ => freshType)).symm
  refine Mirrors.bind (balances_lift _) fun _ => ?_
  rw [hfresh]
  refine balances_declared (bindings.map Prod.fst) (fun ts => ?_) fun ts values => ?_
  · rw [List.zip_map_right]
    exact h _ ts
  · apply mirrors_environment
    refine Mirrors.bind (balances_lift _) fun schemes => ?_
    exact balances_answer get _

end Boundaries

section Forms

variable {id : NodeId} {m m₁ m₂ m₃ : StackM TypedExpr} {m' m₁' m₂' m₃' : InferM TypedExpr}

theorem balances_variableUse (name : String) : Balances (variableUse id name) env (InferM.variableUse env id name) := by
  apply mirrors_environment
  exact balances_lift _

theorem balances_function (lambda : Expr) (params : List String) {inferBody : Env → InferM TypedExpr}
    (h : ∀ env, Balances m env (inferBody env)) :
    Balances (function session lambda params m) env (InferM.function session env lambda params inferBody) := by
  refine Mirrors.bind (Mirrors.within ?_ _) fun out => balances_pure _
  apply mirrors_environment
  refine Mirrors.bind (balances_lift _) fun _ => ?_
  refine balances_declared params (fun ts => h _) fun ts body => ?_
  exact balances_answer _ _

theorem balances_application (func : Expr) {inferArgs : StackM (List TypedExpr)} {inferArgs' : InferM (List TypedExpr)}
    (hfunc : Balances m env m') (hargs : Balances inferArgs env inferArgs') :
    Balances (application id func m inferArgs) env (InferM.application id func m' inferArgs') := by
  refine Mirrors.bind (Mirrors.within ?_ _) fun out => balances_answer _ _
  refine Mirrors.bind hfunc fun func => ?_
  refine Mirrors.bind hargs fun args => ?_
  refine Mirrors.bind (balances_lift _) fun _ => ?_
  refine Mirrors.bind (balances_lift _) fun t => ?_
  refine Mirrors.bind (balances_lift _) fun result => ?_
  exact balances_answer _ _

theorem balances_letIn (name : String) (value : Expr) {inferBody : Env → InferM TypedExpr} (hvalue : Balances m₁ env m₁')
    (hbody : ∀ env, Balances m₂ env (inferBody env)) :
    Balances (letIn session id name value m₁ m₂) env (InferM.letIn session env id name value m₁' inferBody) := by
  refine Mirrors.bind (Mirrors.within (balances_binding value .nested hvalue) _) fun (scheme, value) => ?_
  refine balances_defined (hbody _) fun body => ?_
  exact balances_answer _ _

theorem balances_letRec (bindings : List Binding) {inferValues : List Ty → StackM (List TypedExpr)}
    {inferValues' : Env → List Ty → InferM (List TypedExpr)} {inferBody : Env → InferM TypedExpr}
    (hvalues : ∀ env ts, Balances (inferValues ts) env (inferValues' env ts)) (hbody : ∀ env, Balances m env (inferBody env)) :
    Balances (letRec session id bindings inferValues m) env (InferM.letRec session env id bindings inferValues' inferBody) := by
  refine Mirrors.bind (Mirrors.within (balances_recGroup id bindings .nested hvalues) _) fun bindings => ?_
  refine balances_defined (hbody _) fun body => ?_
  exact balances_answer _ _

theorem balances_cond (h₁ : Balances m₁ env m₁') (h₂ : Balances m₂ env m₂') (h₃ : Balances m₃ env m₃') :
    Balances (cond id m₁ m₂ m₃) env (InferM.cond id m₁' m₂' m₃') := by
  refine Mirrors.bind (Mirrors.within ?_ _) fun out => balances_answer _ _
  refine Mirrors.bind h₁ fun c => ?_
  refine Mirrors.bind (balances_lift _) fun _ => ?_
  refine Mirrors.bind h₂ fun t => ?_
  refine Mirrors.bind h₃ fun e => ?_
  exact balances_answer _ _

theorem balances_binary (op : BinaryOp) (h₁ : Balances m₁ env m₁') (h₂ : Balances m₂ env m₂') :
    Balances (binary id op m₁ m₂) env (InferM.binary id op m₁' m₂') := by
  refine Mirrors.bind h₁ fun l => ?_
  refine Mirrors.bind h₂ fun r => ?_
  exact balances_lift (InferM.binary id op (pure l) (pure r))

theorem balances_unary (op : UnaryOp) (h : Balances m env m') : Balances (unary id op m) env (InferM.unary id op m') := by
  refine Mirrors.bind h fun e => ?_
  exact balances_lift (InferM.unary id op (pure e))

theorem balances_record {inferFields : StackM (List (String × TypedExpr))} {inferFields' : InferM (List (String × TypedExpr))}
    (h : Balances inferFields env inferFields') : Balances (record session id inferFields) env (InferM.record session id inferFields') := by
  refine Mirrors.bind h fun fields => ?_
  exact balances_lift (InferM.record session id (pure fields))

theorem balances_field (h : Balances m env m') (name : String) : Balances (field id m name) env (InferM.field id m' name) := by
  refine Mirrors.bind h fun base => ?_
  exact balances_lift (InferM.field id (pure base) name)

theorem balances_update (h : Balances m env m') {inferFields : (String → TypedExpr → InferM Unit) → StackM (List (String × TypedExpr))}
    {inferFields' : (String → TypedExpr → InferM Unit) → InferM (List (String × TypedExpr))}
    (hfields : ∀ after, Balances (inferFields after) env (inferFields' after)) :
    Balances (update id m inferFields) env (InferM.update id m' inferFields') := by
  refine Mirrors.bind h fun base => ?_
  refine Mirrors.bind (balances_lift _) fun _ => ?_
  refine Mirrors.bind (balances_lift _) fun t => ?_
  refine balances_ite (fun _ => ?_) fun _ => ?_
  · refine Mirrors.bind (balances_lift _) fun _ => ?_
    refine Mirrors.bind (hfields _) fun fields => ?_
    exact balances_answer _ _
  · refine Mirrors.bind (hfields _) fun fields => ?_
    exact balances_answer _ _

theorem balances_list {inferElems : (TypedExpr → InferM Unit) → StackM (List TypedExpr)}
    {inferElems' : (TypedExpr → InferM Unit) → InferM (List TypedExpr)} (h : ∀ after, Balances (inferElems after) env (inferElems' after)) :
    Balances (list id inferElems) env (InferM.list id inferElems') := by
  refine Mirrors.bind (balances_lift _) fun elem => ?_
  refine Mirrors.bind (h _) fun elems => ?_
  exact balances_answer _ _

theorem balances_tuple {inferElems : StackM (List TypedExpr)} {inferElems' : InferM (List TypedExpr)} (h : Balances inferElems env inferElems') :
    Balances (tuple id inferElems) env (InferM.tuple id inferElems') := by
  refine Mirrors.bind h fun elems => ?_
  exact balances_lift (InferM.tuple id (pure elems))

theorem balances_arm (index : Nat) (scrutinee result : Ty) (p : Pattern) {inferBody : Env → InferM TypedExpr}
    (h : ∀ env, Balances m env (inferBody env)) :
    Balances (arm session index scrutinee result p m) env (InferM.arm session env index scrutinee result p inferBody) := by
  refine Mirrors.within ?_ _
  refine Mirrors.bind (balances_lift _) fun out => ?_
  refine Mirrors.bind (balances_lift _) fun _ => ?_
  refine balances_defined (h _) fun body => ?_
  exact balances_answer _ _

theorem balances_caseOf (h : Balances m env m') {inferArms : Ty → Ty → StackM (List (TypedPattern × TypedExpr))}
    {inferArms' : Ty → Ty → InferM (List (TypedPattern × TypedExpr))}
    (harms : ∀ scrutinee result, Balances (inferArms scrutinee result) env (inferArms' scrutinee result)) :
    Balances (caseOf id m inferArms) env (InferM.caseOf id m' inferArms') := by
  refine Mirrors.bind (Mirrors.within ?_ _) fun out => balances_answer _ _
  refine Mirrors.bind h fun scrutinee => ?_
  refine Mirrors.bind (balances_lift _) fun result => ?_
  refine Mirrors.bind (harms _ _) fun arms => ?_
  exact balances_pure _

theorem Mirrors.noted (h : Balances m env m') (e : Expr) : Balances (noted e m) env (InferM.noted e m') := by
  refine Mirrors.bind h fun typed => ?_
  refine Mirrors.bind (balances_lift _) fun c => ?_
  refine balances_ite (fun _ => ?_) fun _ => balances_pure typed
  exact balances_answer _ fun _ => typed

end Forms

section Expressions

variable (session : Session)

mutual

theorem balances_inferExpr (env : Env) (e : Expr) : Balances (inferExpr session e) env (RowTyping.inferExpr session env e) := by
  cases e with
  | lit id l => exact Mirrors.noted (balances_answer (literalType id l) _) _
  | var id name => exact Mirrors.noted (balances_variableUse name) _
  | lambda id params body =>
      refine Mirrors.noted ?_ _
      exact balances_function _ params fun env => balances_inferExpr env body
  | app id func args =>
      refine Mirrors.noted ?_ _
      exact balances_application func (balances_inferExpr env func) (balances_inferExprs env (fun _ => pure ()) args)
  | letIn id name value body =>
      refine Mirrors.noted ?_ _
      exact balances_letIn name value (balances_inferExpr env value) fun env => balances_inferExpr env body
  | letRec id bindings body =>
      refine Mirrors.noted ?_ _
      exact balances_letRec bindings (fun env ts => balances_inferValues env ts bindings) fun env => balances_inferExpr env body
  | cond id c t e =>
      refine Mirrors.noted ?_ _
      exact balances_cond (balances_inferExpr env c) (balances_inferExpr env t) (balances_inferExpr env e)
  | binary id op l r =>
      refine Mirrors.noted ?_ _
      exact balances_binary op (balances_inferExpr env l) (balances_inferExpr env r)
  | unary id op e =>
      refine Mirrors.noted ?_ _
      exact balances_unary op (balances_inferExpr env e)
  | record id fs =>
      refine Mirrors.noted ?_ _
      exact balances_record (balances_inferFields env duplicateField [] fs)
  | field id e name =>
      refine Mirrors.noted ?_ _
      exact balances_field (balances_inferExpr env e) name
  | update id e fs =>
      refine Mirrors.noted ?_ _
      exact balances_update (balances_inferExpr env e) fun after => balances_inferFields env (fun _ => after) [] fs
  | list id es =>
      refine Mirrors.noted ?_ _
      exact balances_list fun after => balances_inferExprs env after es
  | tuple id es =>
      refine Mirrors.noted ?_ _
      exact balances_tuple (balances_inferExprs env (fun _ => pure ()) es)
  | caseOf id e arms =>
      refine Mirrors.noted ?_ _
      exact balances_caseOf (balances_inferExpr env e) fun scrutinee result => balances_inferArms env scrutinee result 0 arms
termination_by structural e

theorem balances_inferExprs (env : Env) (after : TypedExpr → InferM Unit) (es : List Expr) :
    Balances (inferExprs session after es) env (RowTyping.inferExprs session env after es) := by
  cases es with
  | nil => exact balances_pure _
  | cons e es =>
      refine Mirrors.bind (balances_inferExpr env e) fun e => ?_
      refine Mirrors.bind (balances_lift _) fun _ => ?_
      refine Mirrors.bind (balances_inferExprs env after es) fun es => ?_
      exact balances_pure _
termination_by structural es

theorem balances_inferFields (env : Env) (after : List String → String → TypedExpr → InferM Unit) (earlier : List String)
    (fs : List (String × Expr)) : Balances (inferFields session after earlier fs) env (RowTyping.inferFields session env after earlier fs) := by
  cases fs with
  | nil => exact balances_pure _
  | cons f fs =>
      refine Mirrors.bind (Mirrors.within (balances_inferExpr env f.2) _) fun e => ?_
      refine Mirrors.bind (balances_lift _) fun _ => ?_
      refine Mirrors.bind (balances_inferFields env after _ fs) fun fs => ?_
      exact balances_pure _
termination_by structural fs

theorem balances_inferValues (env : Env) (placeholders : List Ty) (bs : List (String × Expr)) :
    Balances (inferValues session placeholders bs) env (RowTyping.inferValues session env placeholders bs) := by
  cases bs with
  | nil => exact balances_pure _
  | cons b bs =>
      refine Mirrors.bind (balances_inferExpr env b.2) fun value => ?_
      refine Mirrors.bind (balances_lift _) fun _ => ?_
      refine Mirrors.bind (balances_inferValues env _ bs) fun values => ?_
      exact balances_pure _
termination_by structural bs

theorem balances_inferArms (env : Env) (scrutinee result : Ty) (index : Nat) (arms : List (Pattern × Expr)) :
    Balances (inferArms session scrutinee result index arms) env (RowTyping.inferArms session env scrutinee result index arms) := by
  cases arms with
  | nil => exact balances_pure _
  | cons a arms =>
      refine Mirrors.bind (balances_arm index scrutinee result a.1 fun env => balances_inferExpr env a.2) fun arm => ?_
      refine Mirrors.bind (balances_inferArms env scrutinee result _ arms) fun arms => ?_
      exact balances_pure _
termination_by structural arms

end

theorem balances_inferBinding (env : Env) (value : Expr) (level : BindingLevel) :
    Balances (inferBinding session value level) env (RowTyping.inferBinding session env value level) :=
  balances_binding value level (balances_inferExpr session env value)

theorem balances_inferTopLevel (env : Env) (e : Expr) :
    Balances (inferTopLevel session e) env (RowTyping.inferTopLevel session env e) :=
  balances_topLevel e (balances_inferExpr session env e)

theorem balances_inferRecGroup (env : Env) (node : NodeId) (bindings : List Binding) (level : BindingLevel) :
    Balances (inferRecGroup session node bindings level) env (RowTyping.inferRecGroup session env node bindings level) :=
  balances_recGroup node bindings level fun env ts => balances_inferValues session env ts bindings

end Expressions

end Mirrors

end Stacked

end RowTyping
