import RowTyping.Proofs.Inference.Closing
import RowTyping.Proofs.Inference.Idle

namespace RowTyping.InferM

variable {session : Session} {env : Env}

section Instantiation

variable {r : Registry}

theorem stepwise_instantiate (scheme : Scheme) (node : NodeId) : Stepwise r (instantiate scheme node) := by
  refine stepwise_ite (fun _ => stepwise_pure _) fun _ => ?_
  refine (idles_freshTypeRenaming _).stepwise.bind fun _ => ?_
  refine (idles_freshRowRenaming _).stepwise.bind fun _ => ?_
  refine (stepwise_forM (fun p => stepwise_addClass ..) _).bind fun _ => ?_
  exact (idles_note ..).stepwise.bind fun _ => stepwise_pure _

end Instantiation

section Boundaries

variable {r : Registry}

theorem Stepwise.settled {α : Type} {m m' : InferM α} {k : ClassConstraint} (hm' : Stepwise r m') (hk : k.isGround = true) (told : Bool)
    (h : ∀ c, m.run c = m'.run (c.settle r k told)) : Stepwise r m := by
  refine ⟨fun c => ?_⟩
  rw [h]
  exact ((stepwise_settle hk told).bind fun _ => hm').steps c

theorem stepwise_resolveGround (rejected : List TypeVarId) (reported : List (String × String)) (ks : List ClassConstraint) :
    Stepwise r (resolveGround r rejected reported ks) := by
  induction ks generalizing reported with
  | nil => exact stepwise_pure _
  | cons k ks ih =>
      rw [resolveGround]
      refine stepwise_ite (fun _ => ih reported) fun _ => stepwise_ite (fun _ => ?_) fun hground => ?_
      · exact (ih reported).bind fun _ => stepwise_pure _
      replace hground : k.isGround = true := by simpa using hground
      rcases r.resolve_of_ground hground with ⟨e, hresolve⟩ | ⟨d, hresolve⟩
      · refine (ih reported).settled hground false fun c => ?_
        rw [Context.settle, hresolve]
        dsimp only
        split <;> rfl
      · rw [hresolve]
        refine stepwise_ite (fun _ => ?_) fun _ => ?_
        · refine (ih reported).settled hground true fun c => ?_
          rw [Context.settle, hresolve]
          rfl
        · refine (ih ((k.className, k.ty.text) :: reported)).settled hground false fun c => ?_
          rw [Context.settle, hresolve]
          rfl

theorem stepwise_applyOutcome (node : NodeId) (monotype : Ty) (outcome : DefaultingOutcome) :
    Stepwise r (applyOutcome node monotype outcome) := by
  have hdefaults : Stepwise r (applyDefaults outcome.subst) := stepwise_quiet fun c => .applyDefaults c _
  refine (stepwise_modify fun c => .idle (.logAll c _)).bind fun _ => ?_
  refine (stepwise_forM (fun d => stepwise_report node d) _).bind fun _ => ?_
  exact stepwise_ite (fun _ => (idles_note ..).stepwise.bind fun _ => hdefaults) fun _ => hdefaults

theorem stepwise_closing (node : NodeId) (ts : List Ty) (level : BindingLevel) (generalizable : Bool) :
    Stepwise session.registry (closing session env node ts level generalizable) := by
  have hsolve : Stepwise session.registry solve := stepwise_quiet fun c => .solve c
  refine hsolve.bind fun _ => ?_
  refine stepwise_get fun _ => ?_
  refine (idles_closeResultEffects ..).stepwise.bind fun _ => ?_
  refine stepwise_get fun _ => ?_
  refine (stepwise_applyOutcome ..).bind fun _ => ?_
  refine (stepwise_quiet fun c => .takeClassScope c).bind fun _ => ?_
  refine stepwise_get fun _ => ?_
  exact (stepwise_resolveGround ..).bind fun _ => stepwise_pure _

theorem stepwise_dispose (level : BindingLevel) (ks : List ClassConstraint) : Stepwise session.registry (dispose level ks) := by
  cases level with
  | nested => exact stepwise_modify fun c => .deferClasses c ks
  | topLevel => exact (idles_reportUnsolved [] ks).stepwise

theorem stepwise_conclude (node : NodeId) (level : BindingLevel) (generalizable : Bool) (cl : Closing) :
    Stepwise session.registry (conclude node level generalizable cl) := by
  cases generalizable with
  | true =>
      refine (stepwise_mapM (fun t => (idles_schemeOf ..).stepwise) _).bind fun _ => ?_
      exact (stepwise_dispose ..).bind fun _ => stepwise_pure _
  | false =>
      refine (stepwise_pure _).bind fun _ => ?_
      exact (stepwise_dispose ..).bind fun _ => stepwise_pure _

theorem stepwise_closeBoundary (node : NodeId) (ts : List Ty) (level : BindingLevel) (generalizable : Bool) :
    Stepwise session.registry (closeBoundary session env node ts level generalizable) := by
  rw [closeBoundary_eq]
  exact (stepwise_closing ..).bind fun _ => stepwise_conclude ..

theorem stepwise_binding (value : Expr) (level : BindingLevel) {infer : InferM TypedExpr} (hinfer : Stepwise session.registry infer) :
    Stepwise session.registry (binding session env value level infer) := by
  refine (stepwise_modify fun c => .pushClassScope c).bind fun _ => ?_
  refine hinfer.bind fun _ => ?_
  refine (stepwise_closeBoundary ..).bind fun _ => ?_
  exact stepwise_get fun _ => stepwise_pure _

theorem stepwise_topLevel (e : Expr) {infer : InferM TypedExpr} (hinfer : Stepwise session.registry infer) :
    Stepwise session.registry (topLevel session env e infer) := by
  refine (stepwise_modify fun c => .pushClassScope c).bind fun _ => ?_
  refine hinfer.bind fun _ => ?_
  refine (stepwise_closeBoundary ..).bind fun _ => ?_
  exact stepwise_get fun _ => stepwise_pure _

theorem stepwise_recGroup (node : NodeId) (bindings : List Binding) (level : BindingLevel)
    {infer : Env → List Ty → InferM (List TypedExpr)} (hinfer : ∀ env ts, Stepwise session.registry (infer env ts)) :
    Stepwise session.registry (recGroup session env node bindings level infer) := by
  refine (stepwise_modify fun c => .pushClassScope c).bind fun _ => ?_
  refine (stepwise_mapM (fun _ => idles_freshType.stepwise) _).bind fun _ => ?_
  refine (hinfer _ _).bind fun _ => ?_
  refine (stepwise_closeBoundary ..).bind fun _ => ?_
  exact stepwise_get fun _ => stepwise_pure _

end Boundaries

section Forms

variable {r : Registry} {id : NodeId} {m m₁ m₂ m₃ : InferM TypedExpr}

theorem stepwise_variableUse (name : String) : Stepwise r (variableUse env id name) := by
  rw [variableUse]
  split
  · exact (stepwise_instantiate ..).bind fun _ => stepwise_pure _
  · refine (stepwise_report ..).bind fun _ => ?_
    exact idles_freshType.stepwise.bind fun _ => stepwise_pure _

theorem stepwise_function (lambda : Expr) (params : List String) {inferBody : Env → InferM TypedExpr}
    (hbody : ∀ env, Stepwise r (inferBody env)) : Stepwise r (function session env lambda params inferBody) := by
  refine (stepwise_within _ ?_).bind fun _ => stepwise_pure _
  refine (idles_checkCaptures _).stepwise.bind fun _ => ?_
  refine (stepwise_mapM (fun _ => idles_freshType.stepwise) _).bind fun _ => ?_
  refine (hbody _).bind fun _ => ?_
  exact (idles_latentEffects ..).stepwise.bind fun _ => stepwise_pure _

theorem stepwise_application (func : Expr) {inferArgs : InferM (List TypedExpr)} (hfunc : Stepwise r m) (hargs : Stepwise r inferArgs) :
    Stepwise r (application id func m inferArgs) := by
  refine (stepwise_within _ ?_).bind fun _ => (idles_joinEffects ..).stepwise.bind fun _ => stepwise_pure _
  refine hfunc.bind fun _ => ?_
  refine hargs.bind fun _ => ?_
  refine idles_flush.stepwise.bind fun _ => ?_
  refine (idles_applied _).stepwise.bind fun _ => ?_
  refine (idles_callee ..).stepwise.bind fun _ => ?_
  exact idles_flush.stepwise.bind fun _ => stepwise_pure _

theorem stepwise_letIn (name : String) (value : Expr) {inferBody : Env → InferM TypedExpr} (hvalue : Stepwise session.registry m)
    (hbody : ∀ env, Stepwise session.registry (inferBody env)) :
    Stepwise session.registry (letIn session env id name value m inferBody) := by
  refine (stepwise_within _ (stepwise_binding _ _ hvalue)).bind fun _ => ?_
  refine (hbody _).bind fun _ => ?_
  exact (idles_joinEffects ..).stepwise.bind fun _ => stepwise_pure _

theorem stepwise_letRec (bindings : List Binding) {inferValues : Env → List Ty → InferM (List TypedExpr)}
    {inferBody : Env → InferM TypedExpr} (hvalues : ∀ env ts, Stepwise session.registry (inferValues env ts))
    (hbody : ∀ env, Stepwise session.registry (inferBody env)) :
    Stepwise session.registry (letRec session env id bindings inferValues inferBody) := by
  refine (stepwise_within _ (stepwise_recGroup _ _ _ hvalues)).bind fun _ => ?_
  refine (hbody _).bind fun _ => ?_
  exact (idles_joinEffects ..).stepwise.bind fun _ => stepwise_pure _

theorem stepwise_cond (h₁ : Stepwise r m₁) (h₂ : Stepwise r m₂) (h₃ : Stepwise r m₃) : Stepwise r (cond id m₁ m₂ m₃) := by
  refine (stepwise_within _ ?_).bind fun _ => (idles_joinEffects ..).stepwise.bind fun _ => stepwise_pure _
  refine h₁.bind fun _ => ?_
  refine (idles_equate ..).stepwise.bind fun _ => ?_
  refine h₂.bind fun _ => ?_
  refine h₃.bind fun _ => ?_
  exact (idles_equate ..).stepwise.bind fun _ => stepwise_pure _

theorem stepwise_operation (op : BinaryOp) (left right : TypedExpr) : Stepwise r (operation id op left right) := by
  have hdemand (operand : Ty) (className : String) : Stepwise r do
      addClass className operand id .operator
      return operand :=
    (stepwise_addClass ..).bind fun _ => stepwise_pure _
  refine stepwise_ite (fun _ => ?_) fun _ => ?_
  · refine (idles_equate ..).stepwise.bind fun _ => ?_
    exact (idles_equate ..).stepwise.bind fun _ => stepwise_pure _
  refine (idles_equate ..).stepwise.bind fun _ => ?_
  refine idles_flush.stepwise.bind fun _ => ?_
  refine (idles_applied _).stepwise.bind fun operand => ?_
  refine stepwise_ite (fun _ => stepwise_ite (fun _ => ?_) fun _ => ?_) fun _ => ?_
  · exact (stepwise_pure _).bind (hdemand operand)
  · exact (idles_numericClass operand).stepwise.bind (hdemand operand)
  · exact (stepwise_addClass ..).bind fun _ => stepwise_pure _

theorem stepwise_binary (op : BinaryOp) (h₁ : Stepwise r m₁) (h₂ : Stepwise r m₂) : Stepwise r (binary id op m₁ m₂) := by
  refine h₁.bind fun _ => ?_
  refine h₂.bind fun _ => ?_
  refine (idles_joinEffects ..).stepwise.bind fun _ => ?_
  refine stepwise_ite (fun _ => ?_) fun _ => ?_
  · exact (idles_concatenation ..).stepwise.bind fun _ => stepwise_pure _
  · exact (stepwise_operation ..).bind fun _ => stepwise_pure _

theorem stepwise_unary (op : UnaryOp) (h : Stepwise r m) : Stepwise r (unary id op m) := by
  refine h.bind fun _ => ?_
  cases op with
  | not => exact (idles_equate ..).stepwise.bind fun _ => stepwise_pure _
  | neg =>
      refine Stepwise.bind ?_ fun _ => stepwise_pure _
      refine idles_flush.stepwise.bind fun _ => ?_
      refine (idles_applied _).stepwise.bind fun _ => ?_
      refine (idles_numericClass _).stepwise.bind fun _ => ?_
      exact (stepwise_addClass ..).bind fun _ => stepwise_pure _

theorem stepwise_record {inferFields : InferM (List (String × TypedExpr))} (h : Stepwise r inferFields) :
    Stepwise r (record session id inferFields) := by
  refine h.bind fun _ => ?_
  exact (idles_joinEffects ..).stepwise.bind fun _ => stepwise_pure _

theorem stepwise_field (h : Stepwise r m) (name : String) : Stepwise r (field id m name) := by
  refine h.bind fun _ => ?_
  exact (idles_fieldType ..).stepwise.bind fun _ => stepwise_pure _

theorem stepwise_update (h : Stepwise r m) {inferFields : (String → TypedExpr → InferM Unit) → InferM (List (String × TypedExpr))}
    (hfields : ∀ after, (∀ name e, Stepwise r (after name e)) → Stepwise r (inferFields after)) : Stepwise r (update id m inferFields) := by
  refine h.bind fun _ => ?_
  refine idles_flush.stepwise.bind fun _ => ?_
  refine (idles_applied _).stepwise.bind fun t => ?_
  have hfields' := hfields _ fun name e => (idles_replaceField t (knownFields? t) name e).stepwise
  refine stepwise_ite (fun _ => (stepwise_report ..).bind fun _ => ?_) fun _ => ?_
  · refine hfields'.bind fun _ => ?_
    exact (idles_joinEffects ..).stepwise.bind fun _ => stepwise_pure _
  · refine hfields'.bind fun _ => ?_
    exact (idles_joinEffects ..).stepwise.bind fun _ => stepwise_pure _

theorem stepwise_list {inferElems : (TypedExpr → InferM Unit) → InferM (List TypedExpr)}
    (h : ∀ after, (∀ e, Stepwise r (after e)) → Stepwise r (inferElems after)) : Stepwise r (list id inferElems) := by
  refine idles_freshType.stepwise.bind fun _ => ?_
  refine (h _ fun _ => (idles_equate ..).stepwise).bind fun _ => ?_
  exact (idles_joinEffects ..).stepwise.bind fun _ => stepwise_pure _

theorem stepwise_tuple {inferElems : InferM (List TypedExpr)} (h : Stepwise r inferElems) : Stepwise r (tuple id inferElems) := by
  refine h.bind fun _ => ?_
  exact (idles_joinEffects ..).stepwise.bind fun _ => stepwise_pure _

theorem stepwise_arm (index : Nat) (scrutinee result : Ty) (p : Pattern) {inferBody : Env → InferM TypedExpr}
    (hbody : ∀ env, Stepwise r (inferBody env)) : Stepwise r (arm session env index scrutinee result p inferBody) := by
  apply stepwise_within _
  refine (idles_inferPattern [] p).stepwise.bind fun _ => ?_
  refine (idles_equate ..).stepwise.bind fun _ => ?_
  refine (hbody _).bind fun _ => ?_
  exact (idles_equate ..).stepwise.bind fun _ => stepwise_pure _

theorem stepwise_caseOf (h : Stepwise r m) {inferArms : Ty → Ty → InferM (List (TypedPattern × TypedExpr))}
    (harms : ∀ scrutinee result, Stepwise r (inferArms scrutinee result)) : Stepwise r (caseOf id m inferArms) := by
  refine (stepwise_within _ ?_).bind fun _ => (idles_joinEffects ..).stepwise.bind fun _ => stepwise_pure _
  refine h.bind fun _ => ?_
  refine idles_freshType.stepwise.bind fun _ => ?_
  exact (harms _ _).bind fun _ => stepwise_pure _

theorem stepwise_noted (e : Expr) (h : Stepwise r m) : Stepwise r (noted e m) := by
  refine ⟨fun c => ?_⟩
  rw [run_noted]
  exact (h.bind fun typed => (idles_note e.id typed.ty (.ofExpr e)).stepwise.bind fun _ => stepwise_pure typed).steps c

end Forms

section Expressions

mutual

theorem stepwise_inferExpr (env : Env) (e : Expr) : Stepwise session.registry (inferExpr session env e) := by
  cases e with
  | lit =>
      apply stepwise_noted _
      exact (idles_literalType ..).stepwise.bind fun _ => stepwise_pure _
  | var => exact stepwise_noted _ (stepwise_variableUse _)
  | lambda id params body =>
      apply stepwise_noted _
      exact stepwise_function _ _ fun env => stepwise_inferExpr env body
  | app id func args =>
      exact stepwise_noted _ (stepwise_application _ (stepwise_inferExpr env func)
        (stepwise_inferExprs env (fun _ => stepwise_pure ()) args))
  | letIn id name value body =>
      apply stepwise_noted _
      refine stepwise_letIn _ _ (stepwise_inferExpr env value) fun env => ?_
      exact stepwise_inferExpr env body
  | letRec id bindings body =>
      apply stepwise_noted _
      refine stepwise_letRec _ (fun env ts => stepwise_inferValues env ts bindings) fun env => ?_
      exact stepwise_inferExpr env body
  | cond id c t e =>
      exact stepwise_noted _ (stepwise_cond (stepwise_inferExpr env c) (stepwise_inferExpr env t) (stepwise_inferExpr env e))
  | binary id op l r => exact stepwise_noted _ (stepwise_binary _ (stepwise_inferExpr env l) (stepwise_inferExpr env r))
  | unary id op e => exact stepwise_noted _ (stepwise_unary _ (stepwise_inferExpr env e))
  | record id fs =>
      exact stepwise_noted _ (stepwise_record (stepwise_inferFields env (fun _ _ _ => (idles_duplicateField ..).stepwise) [] fs))
  | field id e name => exact stepwise_noted _ (stepwise_field (stepwise_inferExpr env e) name)
  | update id e fs =>
      apply stepwise_noted _
      refine stepwise_update (stepwise_inferExpr env e) fun _ h => ?_
      exact stepwise_inferFields env (fun _ => h) [] fs
  | list id es =>
      apply stepwise_noted _
      exact stepwise_list fun _ h => stepwise_inferExprs env h es
  | tuple id es => exact stepwise_noted _ (stepwise_tuple (stepwise_inferExprs env (fun _ => stepwise_pure ()) es))
  | caseOf id e arms =>
      apply stepwise_noted _
      refine stepwise_caseOf (stepwise_inferExpr env e) fun scrutinee result => ?_
      exact stepwise_inferArms env scrutinee result 0 arms
termination_by structural e

theorem stepwise_inferExprs (env : Env) {after : TypedExpr → InferM Unit} (hafter : ∀ e, Stepwise session.registry (after e))
    (es : List Expr) : Stepwise session.registry (inferExprs session env after es) := by
  cases es with
  | nil => exact stepwise_pure _
  | cons e es =>
      refine (stepwise_inferExpr env e).bind fun _ => ?_
      refine (hafter _).bind fun _ => ?_
      exact (stepwise_inferExprs env hafter es).bind fun _ => stepwise_pure _
termination_by structural es

theorem stepwise_inferFields (env : Env) {after : List String → String → TypedExpr → InferM Unit}
    (hafter : ∀ earlier name e, Stepwise session.registry (after earlier name e)) (earlier : List String) (fs : List (String × Expr)) :
    Stepwise session.registry (inferFields session env after earlier fs) := by
  cases fs with
  | nil => exact stepwise_pure _
  | cons f fs =>
      refine (stepwise_within _ (stepwise_inferExpr env f.2)).bind fun _ => ?_
      refine (hafter ..).bind fun _ => ?_
      exact (stepwise_inferFields env hafter _ fs).bind fun _ => stepwise_pure _
termination_by structural fs

theorem stepwise_inferValues (env : Env) (placeholders : List Ty) (bs : List (String × Expr)) :
    Stepwise session.registry (inferValues session env placeholders bs) := by
  cases bs with
  | nil => exact stepwise_pure _
  | cons b bs =>
      refine (stepwise_inferExpr env b.2).bind fun _ => ?_
      refine (idles_equate ..).stepwise.bind fun _ => ?_
      exact (stepwise_inferValues env _ bs).bind fun _ => stepwise_pure _
termination_by structural bs

theorem stepwise_inferArms (env : Env) (scrutinee result : Ty) (index : Nat) (arms : List (Pattern × Expr)) :
    Stepwise session.registry (inferArms session env scrutinee result index arms) := by
  cases arms with
  | nil => exact stepwise_pure _
  | cons a arms =>
      refine (stepwise_arm _ _ _ _ fun env => stepwise_inferExpr env a.2).bind fun _ => ?_
      exact (stepwise_inferArms env scrutinee result _ arms).bind fun _ => stepwise_pure _
termination_by structural arms

end

end Expressions

section Declarations

theorem stepwise_checkDecl (d : Decl) : Stepwise session.registry (Checker.checkDecl session env d) := by
  refine stepwise_get fun c => stepwise_within _ ?_
  cases d with
  | bind id name value =>
      dsimp only [inferBinding]
      refine (stepwise_binding _ _ (stepwise_inferExpr env value)).bind fun _ => ?_
      refine stepwise_get fun _ => ?_
      exact (idles_declare ..).stepwise.bind fun _ => stepwise_pure _
  | bindRec id bindings =>
      dsimp only [inferRecGroup]
      refine (stepwise_recGroup _ _ _ fun env ts => stepwise_inferValues env ts bindings).bind fun _ => ?_
      refine stepwise_get fun _ => ?_
      exact (idles_declareAll ..).stepwise.bind fun _ => stepwise_pure _
  | expr e =>
      dsimp only [inferTopLevel]
      exact (stepwise_topLevel _ (stepwise_inferExpr env e)).bind fun _ => stepwise_pure _

theorem stepwise_checkDecls (env : Env) (ds : List Decl) : Stepwise session.registry (Checker.checkDecls session env ds) := by
  induction ds generalizing env with
  | nil => exact stepwise_pure _
  | cons d ds ih =>
      refine (stepwise_checkDecl d).bind fun _ => ?_
      exact (ih _).bind fun _ => stepwise_pure _

end Declarations

end RowTyping.InferM
