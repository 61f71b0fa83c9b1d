import RowTyping.Checker
import RowTyping.Proofs.Renumbering.Forms

namespace RowTyping

namespace InferM

variable {r : Registry}

theorem uniform_noted (e : Expr) {infer : Variant r → InferM TypedExpr} (hinfer : Uniform TypedExpr.renumber infer) :
    Uniform TypedExpr.renumber fun v : Variant r => noted e (infer v) := by
  -- Variants may differ in what they record, so that the plain note stands in for the one that tests.
  simp only [Uniform, run_noted]
  refine hinfer.bind fun typed => ?_
  exact (uniform_note e.id _ _).bind fun _ => uniform_pure typed

end InferM

open InferM

section Expressions

variable {session : Session}

mutual

theorem uniform_inferExpr (env : Env) : ∀ e : Expr,
    Uniform TypedExpr.renumber fun v : Variant session.registry => inferExpr (v.session session) (env.renumber v.numbers) e
  | .lit id l => uniform_noted (.lit id l) ((uniform_literalType id l).bind fun t => uniform_pure (TypedExpr.lit (pureNode id t) l))
  | .var id name => uniform_noted (.var id name) (uniform_variableUse env id name)
  | .lambda id params body => uniform_noted (.lambda id params body)
      (uniform_function (.lambda id params body) params fun env => uniform_inferExpr env body)
  | .app id func args => uniform_noted (.app id func args) (uniform_application id func (uniform_inferExpr env func)
      (uniform_inferExprs env (fun _ => uniform_pure (σ := plainly) ()) args))
  | .letIn id name value body => uniform_noted (.letIn id name value body)
      (uniform_letIn id name value (uniform_inferExpr env value) fun env => uniform_inferExpr env body)
  | .letRec id bindings body => uniform_noted (.letRec id bindings body)
      (uniform_letRec id bindings (fun env ts => uniform_inferValues env ts bindings) fun env => uniform_inferExpr env body)
  | .cond id c t e => uniform_noted (.cond id c t e)
      (uniform_cond id (uniform_inferExpr env c) (uniform_inferExpr env t) (uniform_inferExpr env e))
  | .binary id op l r => uniform_noted (.binary id op l r) (uniform_binary id op (uniform_inferExpr env l) (uniform_inferExpr env r))
  | .unary id op e => uniform_noted (.unary id op e) (uniform_unary id op (uniform_inferExpr env e))
  | .record id fs => uniform_noted (.record id fs) (uniform_record id (uniform_inferFields env uniform_duplicateField [] fs))
  | .field id e name => uniform_noted (.field id e name) (uniform_field id (uniform_inferExpr env e) name)
  | .update id e fs => uniform_noted (.update id e fs) (uniform_update id (uniform_inferExpr env e) fun _ hafter =>
      uniform_inferFields env (fun _ => hafter) [] fs)
  | .list id es => uniform_noted (.list id es) (uniform_list id fun _ hafter => uniform_inferExprs env hafter es)
  | .tuple id es => uniform_noted (.tuple id es)
      (uniform_tuple id (uniform_inferExprs env (fun _ => uniform_pure (σ := plainly) ()) es))
  | .caseOf id e arms => uniform_noted (.caseOf id e arms) (uniform_caseOf id (uniform_inferExpr env e) fun scrutinee result =>
      uniform_inferArms env scrutinee result 0 arms)

theorem uniform_inferExprs (env : Env) {after : Variant session.registry → TypedExpr → InferM Unit}
    (hafter : ∀ e : TypedExpr, Uniform plainly fun v => after v (e.renumber v.numbers)) : ∀ es : List Expr,
    Uniform (fun π => List.map (TypedExpr.renumber π)) fun v : Variant session.registry =>
      inferExprs (v.session session) (env.renumber v.numbers) (after v) es
  | [] => uniform_pure (σ := fun π => List.map (TypedExpr.renumber π)) []
  | e :: es => (uniform_inferExpr env e).bind fun e => (hafter e).bind fun _ =>
      (uniform_inferExprs env hafter es).bind fun es => uniform_pure (e :: es)

theorem uniform_inferFields (env : Env) {after : Variant session.registry → List String → String → TypedExpr → InferM Unit}
    (hafter : ∀ earlier name (e : TypedExpr), Uniform plainly fun v => after v earlier name (e.renumber v.numbers))
    (earlier : List String) : ∀ fs : List (String × Expr),
    Uniform (fun π => OrderedMap.mapValues (TypedExpr.renumber π)) fun v : Variant session.registry =>
      inferFields (v.session session) (env.renumber v.numbers) (after v) earlier fs
  | [] => uniform_pure (σ := fun π => OrderedMap.mapValues (TypedExpr.renumber π)) []
  | (name, e) :: fs => (uniform_within _ (uniform_inferExpr env e)).bind fun e => (hafter earlier name e).bind fun _ =>
      (uniform_inferFields env hafter (name :: earlier) fs).bind fun fs => uniform_pure ((name, e) :: fs)

theorem uniform_inferValues (env : Env) (placeholders : List Ty) : ∀ bs : List (String × Expr),
    Uniform (fun π => List.map (TypedExpr.renumber π)) fun v : Variant session.registry =>
      inferValues (v.session session) (env.renumber v.numbers) (placeholders.map (Ty.renumber v.numbers)) bs
  | [] => uniform_pure (σ := fun π => List.map (TypedExpr.renumber π)) []
  | (_, e) :: bs => by
      refine (uniform_inferExpr env e).bind fun value => ?_
      have hplaceholder (v : Variant session.registry) : (placeholders.map (Ty.renumber v.numbers)).headD (value.renumber v.numbers).ty =
          (placeholders.headD value.ty).renumber v.numbers := by
        rw [value.ty_renumber]
        cases placeholders <;> rfl
      simp only [hplaceholder, ← List.map_tail]
      refine (uniform_equateExpr .letRec (placeholders.headD value.ty) value).bind fun _ => ?_
      exact (uniform_inferValues env placeholders.tail bs).bind fun values => uniform_pure (value :: values)

theorem uniform_inferArms (env : Env) (scrutinee result : Ty) (index : Nat) : ∀ arms : List (Pattern × Expr),
    Uniform (fun π => List.map (Prod.map (TypedPattern.renumber π) (TypedExpr.renumber π))) fun v : Variant session.registry =>
      inferArms (v.session session) (env.renumber v.numbers) (scrutinee.renumber v.numbers) (result.renumber v.numbers) index arms
  | [] => uniform_pure (σ := fun π => List.map (Prod.map (TypedPattern.renumber π) (TypedExpr.renumber π))) []
  | (p, e) :: arms => (uniform_arm index scrutinee result p fun env => uniform_inferExpr env e).bind fun arm =>
      (uniform_inferArms env scrutinee result (index + 1) arms).bind fun arms => uniform_pure (arm :: arms)

end

end Expressions

section Declarations

variable {session : Session} {r : Registry}

theorem uniform_declare (failed : Bool) (name : String) (scheme : Scheme) :
    Uniform Scheme.renumber fun v : Variant r => Checker.declare failed name (scheme.renumber v.numbers) := by
  have hrest (scheme : Scheme) : Uniform Scheme.renumber fun v : Variant r => do
      modify (Context.log (.declared name (scheme.renumber v.numbers)))
      return scheme.renumber v.numbers :=
    (uniform_log _).bind fun _ => uniform_pure scheme
  have hpoison : Uniform Scheme.renumber fun _ : Variant r => Checker.poison :=
    uniform_freshTypeVar.bind fun x => uniform_pure (Scheme.mk [.star x] [] [] (.var (.star x)))
  exact uniform_ite (fun _ => hpoison.bind hrest) fun _ => hrest scheme

theorem uniform_declareAll (failed : Bool) (bs : List TypedBinding) :
    Uniform (fun π => List.map (TypedBinding.renumber π)) fun v : Variant r =>
      Checker.declareAll failed (bs.map (TypedBinding.renumber v.numbers)) := by
  induction bs with
  | nil => exact uniform_pure (σ := fun π => List.map (TypedBinding.renumber π)) []
  | cons b bs ih =>
      refine (uniform_declare failed b.name b.scheme).bind fun scheme => ?_
      refine ih.bind fun bs => ?_
      exact uniform_pure (σ := fun π => List.map (TypedBinding.renumber π)) ({ b with scheme } :: bs)

theorem uniform_failed (before : Nat) : Uniform plainly fun _ : Variant r => do
    return decide (before < (← get).errors.length) :=
  uniform_gets fun k => ⟨decide (before < k.reports.length), fun v c h => by rw [h.errors, List.length_map]⟩

theorem uniform_checkDecl (env : Env) (d : Decl) :
    Uniform TypedDecl.renumber fun v : Variant session.registry => Checker.checkDecl (v.session session) (env.renumber v.numbers) d := by
  refine uniform_get (F := ?F) (fun k v c h => ?_) fun k => ?_
  case refine_1 =>
    simp only [h.errors, List.length_map]
    rfl
  apply uniform_within _
  cases d with
  | bind id name value =>
      simp only [inferBinding]
      refine (uniform_binding value .topLevel (uniform_inferExpr env value)).bind fun (scheme, value) => ?_
      refine (uniform_failed _).bind fun failed => ?_
      refine (uniform_declare failed name scheme).bind fun scheme => ?_
      exact uniform_pure (TypedDecl.bind id name scheme value)
  | bindRec id bindings =>
      simp only [inferRecGroup]
      refine (uniform_recGroup id bindings .topLevel fun env ts => uniform_inferValues env ts bindings).bind fun bindings => ?_
      refine (uniform_failed _).bind fun failed => ?_
      refine (uniform_declareAll failed bindings).bind fun bindings => ?_
      exact uniform_pure (TypedDecl.bindRec id bindings)
  | expr e =>
      simp only [inferTopLevel]
      exact (uniform_topLevel e (uniform_inferExpr env e)).bind fun e => uniform_pure (TypedDecl.expr e)

theorem uniform_checkDecls (session : Session) (env : Env) (ds : List Decl) :
    Uniform (fun π => List.map (TypedDecl.renumber π)) fun v : Variant session.registry =>
      Checker.checkDecls (v.session session) (env.renumber v.numbers) ds := by
  induction ds generalizing env with
  | nil => exact uniform_pure (σ := fun π => List.map (TypedDecl.renumber π)) []
  | cons d ds ih =>
      refine (uniform_checkDecl env d).bind fun d => ?_
      simp only [boundSchemes_renumber, Env.bindAll_renumber]
      refine (ih (env.bindAll (Checker.boundSchemes d))).bind fun ds => ?_
      exact uniform_pure (σ := fun π => List.map (TypedDecl.renumber π)) (d :: ds)

end Declarations

end RowTyping
