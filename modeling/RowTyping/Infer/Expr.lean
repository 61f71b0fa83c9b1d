import RowTyping.Infer.Form

namespace RowTyping

namespace InferM

def noted (e : Expr) (infer : InferM TypedExpr) : InferM TypedExpr := do
  let typed ← infer
  if (← get).isTracing then note e.id typed.ty (.ofExpr e)
  return typed

-- A note that is not taken leaves the context alone.
theorem run_noted (e : Expr) (infer : InferM TypedExpr) :
    (noted e infer).run = (do let typed ← infer; note e.id typed.ty (.ofExpr e); return typed : InferM TypedExpr).run := by
  funext c
  change (if (infer.run c).2.isTracing = true then _ else _ : InferM TypedExpr).run _ =
    ((infer.run c).1, (infer.run c).2.note e.id (infer.run c).1.ty (.ofExpr e))
  by_cases h : (infer.run c).2.isTracing = true
  · rw [if_pos h]
    rfl
  · rw [if_neg h, Context.note, if_neg h]
    rfl

end InferM

open InferM

variable (session : Session)

mutual

def inferExpr (env : Env) : Expr → InferM TypedExpr
  | .lit id l => noted (.lit id l) do
      return .lit (pureNode id (← literalType id l)) l
  | .var id name => noted (.var id name) (variableUse env id name)
  | .lambda id params body => noted (.lambda id params body)
      (function session env (.lambda id params body) params fun env => inferExpr env body)
  | .app id func args => noted (.app id func args)
      (application id func (inferExpr env func) (inferExprs env (fun _ => pure ()) args))
  | .letIn id name value body => noted (.letIn id name value body)
      (letIn session env id name value (inferExpr env value) fun env => inferExpr env body)
  | .letRec id bindings body => noted (.letRec id bindings body)
      (letRec session env id bindings (fun env ts => inferValues env ts bindings) fun env => inferExpr env body)
  | .cond id c t e => noted (.cond id c t e) (cond id (inferExpr env c) (inferExpr env t) (inferExpr env e))
  | .binary id op l r => noted (.binary id op l r) (binary id op (inferExpr env l) (inferExpr env r))
  | .unary id op e => noted (.unary id op e) (unary id op (inferExpr env e))
  | .record id fs => noted (.record id fs) (record session id (inferFields env duplicateField [] fs))
  | .field id e name => noted (.field id e name) (field id (inferExpr env e) name)
  | .update id e fs => noted (.update id e fs)
      (update id (inferExpr env e) fun after => inferFields env (fun _ => after) [] fs)
  | .list id es => noted (.list id es) (list id fun after => inferExprs env after es)
  | .tuple id es => noted (.tuple id es) (tuple id (inferExprs env (fun _ => pure ()) es))
  | .caseOf id e arms => noted (.caseOf id e arms)
      (caseOf id (inferExpr env e) fun scrutinee result => inferArms env scrutinee result 0 arms)
termination_by structural e => e

def inferExprs (env : Env) (after : TypedExpr → InferM Unit) : List Expr → InferM (List TypedExpr)
  | [] => return []
  | e :: es => do
      let e ← inferExpr env e
      after e
      return e :: (← inferExprs env after es)
termination_by structural es => es

def inferFields (env : Env) (after : List String → String → TypedExpr → InferM Unit) (earlier : List String) :
    List (String × Expr) → InferM (List (String × TypedExpr))
  | [] => return []
  | (name, e) :: fs => do
      let e ← within (fieldLabel name) (inferExpr env e)
      after earlier name e
      return (name, e) :: (← inferFields env after (name :: earlier) fs)
termination_by structural fs => fs

def inferValues (env : Env) (placeholders : List Ty) : List (String × Expr) → InferM (List TypedExpr)
  | [] => return []
  | (_, e) :: bs => do
      let value ← inferExpr env e
      equate value.id .letRec (placeholders.headD value.ty) value.ty
      return value :: (← inferValues env placeholders.tail bs)
termination_by structural bs => bs

def inferArms (env : Env) (scrutinee result : Ty) (index : Nat) :
    List (Pattern × Expr) → InferM (List (TypedPattern × TypedExpr))
  | [] => return []
  | (p, e) :: arms => do
      let typed ← arm session env index scrutinee result p fun env => inferExpr env e
      return typed :: (← inferArms env scrutinee result (index + 1) arms)
termination_by structural arms => arms

end

def inferBinding (env : Env) (value : Expr) (level : BindingLevel) : InferM (Scheme × TypedExpr) :=
  binding session env value level (inferExpr session env value)

def inferTopLevel (env : Env) (e : Expr) : InferM TypedExpr :=
  topLevel session env e (inferExpr session env e)

def inferRecGroup (env : Env) (node : NodeId) (bindings : List Binding) (level : BindingLevel) :
    InferM (List TypedBinding) :=
  recGroup session env node bindings level fun env ts => inferValues session env ts bindings

end RowTyping
