import RowTyping.Infer.Form
import RowTyping.Proofs.Renumbering.Effects
import RowTyping.Proofs.Renumbering.Patterns

namespace RowTyping.InferM

variable {r : Registry}

theorem uniform_equateExpr (reason : Reason) (t : Ty) (e : TypedExpr) : Uniform plainly fun v : Variant r =>
    equate (e.renumber v.numbers).id reason (t.renumber v.numbers) (e.renumber v.numbers).ty := by
  simp only [TypedExpr.id_renumber, TypedExpr.ty_renumber]
  exact uniform_equate e.id reason t e.ty

theorem uniform_variableUse (env : Env) (id : NodeId) (name : String) :
    Uniform TypedExpr.renumber fun v : Variant r => variableUse (env.renumber v.numbers) id name := by
  simp only [variableUse, Env.lookup_renumber]
  cases env.lookup name with
  | none =>
      refine (uniform_report id _).bind fun _ => ?_
      exact uniform_freshType.bind fun t => uniform_pure (TypedExpr.var (pureNode id t) name)
  | some scheme => exact (uniform_instantiate scheme id).bind fun t => uniform_pure (TypedExpr.var (pureNode id t) name)

section Functions

variable {session : Session} {env : Env}

theorem uniform_function (lambda : Expr) (params : List String) {inferBody : Variant r → Env → InferM TypedExpr}
    (hbody : ∀ env : Env, Uniform TypedExpr.renumber fun v => inferBody v (env.renumber v.numbers)) :
    Uniform TypedExpr.renumber fun v : Variant r =>
      function (v.session session) (env.renumber v.numbers) lambda params (inferBody v) := by
  have hunder (types : List (String × Ty)) : Uniform TypedExpr.renumber fun v : Variant r => inferBody v
      ((env.renumber v.numbers).nest (OrderedMap.mapValues Scheme.mono (OrderedMap.mapValues (Ty.renumber v.numbers) types))) := by
    simp only [Env.nest_mono_renumber]
    exact hbody _
  refine Uniform.bind (σ := fun π => Prod.map (OrderedMap.mapValues (Ty.renumber π))
    (Prod.map (TypedExpr.renumber π) (Effects.renumber π))) (uniform_within "lambda" ?_) fun (params, body, latent) => ?_
  · refine (uniform_checkCaptures session env lambda).bind fun _ => ?_
    refine (uniform_mapM fun _ _ => uniform_freshType).bind fun types => ?_
    simp only [List.zip_map_right]
    refine (hunder (params.zip types)).bind fun body => ?_
    simp only [TypedExpr.effects_renumber]
    exact (uniform_latentEffects session lambda.id body.effects).bind fun latent => uniform_pure (params.zip types, body, latent)
  · refine uniform_pure_of_eq (TypedExpr.lambda (pureNode lambda.id (.fn (params.map Prod.snd) latent body.ty)) params body) fun v => ?_
    have hparams : (OrderedMap.mapValues (Ty.renumber v.numbers) params).map Prod.snd = (params.map Prod.snd).map (Ty.renumber v.numbers) :=
      map_map_comm fun _ _ => rfl
    have hty : Ty.fn ((OrderedMap.mapValues (Ty.renumber v.numbers) params).map Prod.snd) (latent.renumber v.numbers)
        (body.renumber v.numbers).ty = (Ty.fn (params.map Prod.snd) latent body.ty).renumber v.numbers := by
      rw [hparams, body.ty_renumber, Ty.renumber_fn]
    exact congrArg (fun t => TypedExpr.lambda (pureNode lambda.id t) _ _) hty

theorem uniform_passArguments (index : Nat) (params : List Ty) (args : List TypedExpr) :
    Uniform plainly fun v : Variant r =>
      passArguments index (params.map (Ty.renumber v.numbers)) (args.map (TypedExpr.renumber v.numbers)) := by
  induction params generalizing index args with
  | nil => exact uniform_pure (σ := plainly) ()
  | cons param params ih =>
      cases args with
      | nil => exact uniform_pure (σ := plainly) ()
      | cons arg args =>
          simp only [List.map_cons, passArguments, TypedExpr.ty_renumber, TypedExpr.id_renumber]
          refine (uniform_applied arg.ty).bind fun t => ?_
          refine (uniform_openLatentEffects t).bind fun actual => ?_
          exact (uniform_equate arg.id (.functionArg index) param actual).bind fun _ => ih (index + 1) args

theorem uniform_callee (id funcId : NodeId) (args : List TypedExpr) (func : Ty) :
    Uniform (fun π => Prod.map (Ty.renumber π) (Effects.renumber π)) fun v : Variant r =>
      callee id funcId (args.map (TypedExpr.renumber v.numbers)) (func.renumber v.numbers) := by
  have hother (t : Ty) : Uniform (fun π => Prod.map (Ty.renumber π) (Effects.renumber π)) fun v : Variant r => do
      let result ← freshType
      let latent := Effects.opened [] (← freshRow)
      equate funcId .application (.fn ((args.map (TypedExpr.renumber v.numbers)).map TypedExpr.ty) latent result) (t.renumber v.numbers)
      return (result, latent) := by
    refine uniform_freshType.bind fun result => ?_
    refine uniform_freshRow.bind fun rest => ?_
    have h := uniform_equate (r := r) funcId .application (.fn (args.map TypedExpr.ty) (Effects.opened [] rest) result) t
    simp only [Ty.renumber_fn, Effects.renumber_opened, ← TypedExpr.types_renumber] at h
    refine h.bind fun _ => ?_
    refine uniform_pure_of_eq (result, Effects.opened [] rest) fun _ => ?_
    rw [Prod.map_apply, Effects.renumber_opened]
  cases func with
  | fn params latent result =>
      simp only [Ty.renumber_fn, callee, List.length_map]
      refine uniform_ite (fun _ => ?_) fun _ => ?_
      · exact (uniform_passArguments 0 params args).bind fun _ => uniform_pure (result, latent)
      · refine (uniform_report id _).bind fun _ => ?_
        exact uniform_freshType.bind fun t => uniform_pure (t, none)
  | _ => exact hother _

theorem uniform_application (id : NodeId) (func : Expr) {inferFunc : Variant r → InferM TypedExpr}
    {inferArgs : Variant r → InferM (List TypedExpr)} (hfunc : Uniform TypedExpr.renumber inferFunc)
    (hargs : Uniform (fun π => List.map (TypedExpr.renumber π)) inferArgs) :
    Uniform TypedExpr.renumber fun v : Variant r => application id func (inferFunc v) (inferArgs v) := by
  refine Uniform.bind (σ := fun π => Prod.map (TypedExpr.renumber π) (Prod.map (List.map (TypedExpr.renumber π))
    (Prod.map (Ty.renumber π) (Effects.renumber π)))) (uniform_within _ ?_) fun (func, args, result, latent) => ?_
  · refine hfunc.bind fun func => ?_
    refine hargs.bind fun args => ?_
    refine uniform_flush.bind fun _ => ?_
    simp only [TypedExpr.ty_renumber, TypedExpr.id_renumber]
    refine (uniform_applied func.ty).bind fun t => ?_
    refine (uniform_callee id func.id args t).bind fun (result, latent) => ?_
    exact uniform_flush.bind fun _ => uniform_pure (func, args, result, latent)
  · have heffects (v : Variant r) : (func.renumber v.numbers).effects :: (args.map (TypedExpr.renumber v.numbers)).map TypedExpr.effects ++
        [latent.renumber v.numbers] = (func.effects :: args.map TypedExpr.effects ++ [latent]).map (Effects.renumber v.numbers) := by
      rw [TypedExpr.effects_renumber, TypedExpr.allEffects_renumber, List.map_append]
      rfl
    simp only [Prod.map, heffects]
    refine (uniform_joinEffects id _).bind fun effects => ?_
    refine uniform_pure_of_eq (TypedExpr.app ⟨id, result, effects⟩ func args) fun v => ?_
    rw [TypedExpr.renumber_app]

end Functions

section Bindings

variable {session : Session} {env : Env}

theorem uniform_letIn (id : NodeId) (name : String) (value : Expr) {inferValue : Variant session.registry → InferM TypedExpr}
    {inferBody : Variant session.registry → Env → InferM TypedExpr} (hvalue : Uniform TypedExpr.renumber inferValue)
    (hbody : ∀ env : Env, Uniform TypedExpr.renumber fun v => inferBody v (env.renumber v.numbers)) :
    Uniform TypedExpr.renumber fun v : Variant session.registry =>
      letIn (v.session session) (env.renumber v.numbers) id name value (inferValue v) (inferBody v) := by
  refine (uniform_within _ (uniform_binding value .nested hvalue)).bind fun (scheme, value) => ?_
  have hnest (v : Variant session.registry) : (env.renumber v.numbers).nest [(name, scheme.renumber v.numbers)] =
      (env.nest [(name, scheme)]).renumber v.numbers := env.nest_renumber [(name, scheme)]
  simp only [Prod.map, hnest]
  refine (hbody _).bind fun body => ?_
  simp only [TypedExpr.effects_renumber, TypedExpr.ty_renumber]
  exact (uniform_joinEffects id [value.effects, body.effects]).bind fun effects =>
    uniform_pure (TypedExpr.letIn ⟨id, body.ty, effects⟩ name scheme value body)

theorem uniform_letRec (id : NodeId) (bindings : List Binding)
    {inferValues : Variant session.registry → Env → List Ty → InferM (List TypedExpr)}
    {inferBody : Variant session.registry → Env → InferM TypedExpr}
    (hvalues : ∀ (env : Env) (ts : List Ty), Uniform (fun π => List.map (TypedExpr.renumber π)) fun v =>
      inferValues v (env.renumber v.numbers) (ts.map (Ty.renumber v.numbers)))
    (hbody : ∀ env : Env, Uniform TypedExpr.renumber fun v => inferBody v (env.renumber v.numbers)) :
    Uniform TypedExpr.renumber fun v : Variant session.registry =>
      letRec (v.session session) (env.renumber v.numbers) id bindings (inferValues v) (inferBody v) := by
  refine (uniform_within _ (uniform_recGroup id bindings .nested hvalues)).bind fun bindings => ?_
  have hnest (v : Variant session.registry) :
      (env.renumber v.numbers).nest ((bindings.map (TypedBinding.renumber v.numbers)).map fun b => (b.name, b.scheme)) =
        (env.nest (bindings.map fun b => (b.name, b.scheme))).renumber v.numbers := by
    rw [← env.nest_renumber, List.map_map, List.map_map]
    rfl
  simp only [hnest]
  refine (hbody _).bind fun body => ?_
  have heffects (v : Variant session.registry) : (bindings.map (TypedBinding.renumber v.numbers)).map (fun b => b.value.effects) ++
      [(body.renumber v.numbers).effects] =
        (bindings.map (fun b => b.value.effects) ++ [body.effects]).map (Effects.renumber v.numbers) := by
    rw [List.map_append, List.map_map, List.map_map, body.effects_renumber]
    exact congrArg (· ++ _) (List.map_congr_left fun b _ => b.value.effects_renumber)
  simp only [heffects, TypedExpr.ty_renumber]
  refine (uniform_joinEffects id _).bind fun effects => ?_
  refine uniform_pure_of_eq (TypedExpr.letRec ⟨id, body.ty, effects⟩ bindings body) fun v => ?_
  rw [TypedExpr.renumber_letRec]

end Bindings

section Operators

theorem uniform_cond (id : NodeId) {inferCondition inferThen inferElse : Variant r → InferM TypedExpr}
    (hcondition : Uniform TypedExpr.renumber inferCondition) (hthen : Uniform TypedExpr.renumber inferThen)
    (helse : Uniform TypedExpr.renumber inferElse) :
    Uniform TypedExpr.renumber fun v : Variant r => cond id (inferCondition v) (inferThen v) (inferElse v) := by
  refine Uniform.bind (σ := fun π => Prod.map (TypedExpr.renumber π) (Prod.map (TypedExpr.renumber π) (TypedExpr.renumber π)))
    (uniform_within _ ?_) fun (c, t, e) => ?_
  · refine hcondition.bind fun c => ?_
    refine (uniform_equateExpr .ifCondition .bool c).bind fun _ => ?_
    refine hthen.bind fun t => ?_
    refine helse.bind fun e => ?_
    simp only [TypedExpr.ty_renumber]
    exact (uniform_equate id .ifBranches t.ty e.ty).bind fun _ => uniform_pure (c, t, e)
  · simp only [Prod.map, TypedExpr.effects_renumber, TypedExpr.ty_renumber]
    exact (uniform_joinEffects id [c.effects, t.effects, e.effects]).bind fun effects =>
      uniform_pure (TypedExpr.cond ⟨id, t.ty, effects⟩ c t e)

theorem hasClass_renumber {π : Renumbering} {k : Sketch} {c : Context} (h : k.Renders π c) (hπ : π.Ascends) (t : Ty)
    (className : String) : c.hasClass (t.renumber π) className = k.context.hasClass t className := by
  have hconstraint (q : ClassConstraint) : ((q.renumber π).className == className && c.apply (q.renumber π).ty == c.apply (t.renumber π)) =
      (q.className == className && k.context.apply q.ty == k.context.apply t) := by
    rw [ClassConstraint.renumber, h.apply hπ, h.apply hπ, (Ty.renumber_injective hπ).beq_eq]
  rw [Context.hasClass, Context.hasClass, h.classes, Scopes.toList_map, List.any_map]
  simp only [Function.comp_def, hconstraint]

theorem uniform_numericClass (t : Ty) : Uniform plainly fun v : Variant r => numericClass (t.renumber v.numbers) :=
  uniform_gets fun k => ⟨if k.context.hasClass t "Fractional" then "Fractional" else "Num", fun v c h => by
    rw [hasClass_renumber h v.ascends]⟩

theorem uniform_concatenation (id : NodeId) (left right : Ty) :
    Uniform (fun π => Prod.map (fun kind => kind) (Ty.renumber π)) fun v : Variant r =>
      concatenation id (left.renumber v.numbers) (right.renumber v.numbers) := by
  refine uniform_flush.bind fun _ => ?_
  refine (uniform_applied left).bind fun left => ?_
  refine (uniform_applied right).bind fun right => ?_
  have hrest (kind : ConcatKind) (t : Ty) : Uniform (fun π => Prod.map (fun kind => kind) (Ty.renumber π)) fun v : Variant r => do
      equate id (.binaryOp .concat) (t.renumber v.numbers) (left.renumber v.numbers)
      equate id (.binaryOp .concat) (t.renumber v.numbers) (right.renumber v.numbers)
      return (kind, t.renumber v.numbers) := by
    refine (uniform_equate id _ t left).bind fun _ => ?_
    exact (uniform_equate id _ t right).bind fun _ => uniform_pure (kind, t)
  have hknown (v : Variant r) : (if left.isVar then right.renumber v.numbers else left.renumber v.numbers) =
      (if left.isVar then right else left).renumber v.numbers := (apply_ite ..).symm
  simp only [Ty.isVar_renumber, hknown]
  generalize (if left.isVar then right else left) = known
  simp only [Ty.isCon_renumber]
  refine uniform_ite (fun _ => hrest .string .string) fun _ => ?_
  have hother (known : Ty) : Uniform (fun π => Prod.map (fun kind => kind) (Ty.renumber π)) fun v : Variant r => do
      report id (.error .typeMismatch ("`++` needs strings or lists, got " ++ (known.renumber v.numbers).display))
      let t ← freshType
      equate id (.binaryOp .concat) t (left.renumber v.numbers)
      equate id (.binaryOp .concat) t (right.renumber v.numbers)
      return (ConcatKind.list, t) := by
    simp only [fun v : Variant r => known.display_renumber v.ascends]
    refine (uniform_report id _).bind fun _ => ?_
    refine uniform_freshType.bind fun t => ?_
    exact hrest .list t
  cases known with
  | list a => exact hrest .list (.list a)
  | var x => exact uniform_freshType.bind fun t => hrest .list (.list t)
  | _ => exact hother _

theorem uniform_operation (id : NodeId) (op : BinaryOp) (left right : TypedExpr) :
    Uniform Ty.renumber fun v : Variant r => operation id op (left.renumber v.numbers) (right.renumber v.numbers) := by
  refine uniform_ite (fun _ => ?_) fun _ => ?_
  · refine (uniform_equateExpr _ .bool left).bind fun _ => ?_
    exact (uniform_equateExpr _ .bool right).bind fun _ => uniform_pure Ty.bool
  · simp only [TypedExpr.ty_renumber]
    refine (uniform_equate id _ left.ty right.ty).bind fun _ => ?_
    refine uniform_flush.bind fun _ => ?_
    refine (uniform_applied left.ty).bind fun operand => ?_
    have hdispatch (className : String) : Uniform Ty.renumber fun v : Variant r => do
        addClass className (operand.renumber v.numbers) id .operator
        return operand.renumber v.numbers :=
      (uniform_addClass className operand id .operator).bind fun _ => uniform_pure operand
    refine uniform_ite (fun _ => uniform_ite (fun _ => hdispatch "Integral") fun _ => ?_) fun _ => ?_
    · exact (uniform_numericClass operand).bind hdispatch
    · exact (uniform_addClass _ operand id .operator).bind fun _ => uniform_pure Ty.bool

theorem uniform_binary (id : NodeId) (op : BinaryOp) {inferLeft inferRight : Variant r → InferM TypedExpr}
    (hleft : Uniform TypedExpr.renumber inferLeft) (hright : Uniform TypedExpr.renumber inferRight) :
    Uniform TypedExpr.renumber fun v : Variant r => binary id op (inferLeft v) (inferRight v) := by
  refine hleft.bind fun left => ?_
  refine hright.bind fun right => ?_
  simp only [TypedExpr.effects_renumber]
  refine (uniform_joinEffects id [left.effects, right.effects]).bind fun effects => uniform_ite (fun _ => ?_) fun _ => ?_
  · simp only [TypedExpr.ty_renumber]
    exact (uniform_concatenation id left.ty right.ty).bind fun (kind, t) => uniform_pure (TypedExpr.concat ⟨id, t, effects⟩ kind left right)
  · exact (uniform_operation id op left right).bind fun t => uniform_pure (TypedExpr.binary ⟨id, t, effects⟩ op left right)

theorem uniform_negation (id : NodeId) (operand : Ty) : Uniform Ty.renumber fun v : Variant r => negation id (operand.renumber v.numbers) := by
  refine uniform_flush.bind fun _ => ?_
  refine (uniform_applied operand).bind fun t => ?_
  refine (uniform_numericClass t).bind fun className => ?_
  exact (uniform_addClass className t id .operator).bind fun _ => uniform_pure t

theorem uniform_unary (id : NodeId) (op : UnaryOp) {inferOperand : Variant r → InferM TypedExpr}
    (hoperand : Uniform TypedExpr.renumber inferOperand) : Uniform TypedExpr.renumber fun v : Variant r => unary id op (inferOperand v) := by
  refine hoperand.bind fun operand => ?_
  cases op with
  | not =>
      simp only [TypedExpr.effects_renumber, TypedExpr.ty_renumber]
      exact (uniform_equate id _ .bool operand.ty).bind fun _ =>
        uniform_pure (TypedExpr.unary ⟨id, .bool, operand.effects⟩ .not operand)
  | neg =>
      simp only [TypedExpr.effects_renumber, TypedExpr.ty_renumber]
      exact (uniform_negation id operand.ty).bind fun t => uniform_pure (TypedExpr.unary ⟨id, t, operand.effects⟩ .neg operand)

end Operators

section Records

variable {session : Session}

theorem uniform_duplicateField (earlier : List String) (name : String) (e : TypedExpr) :
    Uniform plainly fun v : Variant r => duplicateField earlier name (e.renumber v.numbers) := by
  simp only [duplicateField, TypedExpr.id_renumber]
  exact uniform_ite (fun _ => uniform_report e.id _) fun _ => uniform_pure (σ := plainly) ()

theorem effects_fields (fs : List (String × TypedExpr)) (π : Renumbering) :
    (OrderedMap.mapValues (TypedExpr.renumber π) fs).map (fun f => f.2.effects) = (fs.map fun f => f.2.effects).map (Effects.renumber π) :=
  map_map_comm fun f _ => f.2.effects_renumber

theorem uniform_record (id : NodeId) {inferFields : Variant r → InferM (List (String × TypedExpr))}
    (hfields : Uniform (fun π => OrderedMap.mapValues (TypedExpr.renumber π)) inferFields) :
    Uniform TypedExpr.renumber fun v : Variant r => InferM.record (v.session session) id (inferFields v) := by
  refine hfields.bind fun fields => ?_
  have htypes (v : Variant r) :
      OrderedMap.ofList ((OrderedMap.mapValues (TypedExpr.renumber v.numbers) fields).map fun f => (f.1, f.2.ty)) =
        (OrderedMap.ofList (fields.map fun f => (f.1, f.2.ty))).mapValues (Ty.renumber v.numbers) := by
    rw [OrderedMap.mapValues_ofList]
    exact congrArg _ (map_map_comm fun f _ => congrArg (Prod.mk f.1) f.2.ty_renumber)
  simp only [htypes, effects_fields, Variant.encoding_session, RecordEncoding.recordType_renumber]
  refine (uniform_joinEffects id _).bind fun effects => ?_
  refine uniform_pure_of_eq (TypedExpr.record ⟨id, session.config.encoding.recordType (OrderedMap.ofList (fields.map fun f => (f.1, f.2.ty))), effects⟩ fields) fun v => ?_
  rw [TypedExpr.renumber_record]

theorem uniform_missingField (id : NodeId) (t : Ty) (name : String) :
    Uniform Ty.renumber fun v : Variant r => missingField id (t.renumber v.numbers) name := by
  simp only [missingField, fun v : Variant r => t.display_renumber v.ascends]
  exact (uniform_report id _).bind fun _ => uniform_freshType

theorem uniform_fieldType (id : NodeId) (t : Ty) (name : String) :
    Uniform Ty.renumber fun v : Variant r => fieldType id (t.renumber v.numbers) name := by
  refine uniform_flush.bind fun _ => ?_
  refine (uniform_applied t).bind fun t => ?_
  simp only [Ty.positionalLabels?_renumber, Ty.arguments_renumber, List.getElem?_map]
  cases t.positionalLabels? with
  | some labels =>
      have hfield (v : Variant r) : ((labels.idxOf? name).bind fun i => (t.arguments[i]?).map (Ty.renumber v.numbers)) =
          ((labels.idxOf? name).bind fun i => t.arguments[i]?).map (Ty.renumber v.numbers) := Option.map_bind.symm
      simp only [hfield]
      cases (labels.idxOf? name).bind fun i => t.arguments[i]? with
      | some field => exact uniform_pure field
      | none => exact uniform_missingField id t name
  | none =>
      refine uniform_freshType.bind fun field => ?_
      refine uniform_freshRow.bind fun rest => ?_
      have h := uniform_equate (r := r) id (.recordField name) (.record (.openRecord [(name, field)] rest)) t
      simp only [Ty.renumber_record, Row.renumber_openRecord] at h
      exact h.bind fun _ => uniform_pure field

theorem uniform_field (id : NodeId) {inferRecord : Variant r → InferM TypedExpr} (hrecord : Uniform TypedExpr.renumber inferRecord)
    (name : String) : Uniform TypedExpr.renumber fun v : Variant r => field id (inferRecord v) name := by
  refine hrecord.bind fun base => ?_
  simp only [TypedExpr.ty_renumber, TypedExpr.effects_renumber]
  exact (uniform_fieldType id base.ty name).bind fun t => uniform_pure (TypedExpr.field ⟨id, t, base.effects⟩ base name)

theorem knownFields?_renumber (t : Ty) (π : Renumbering) :
    knownFields? (t.renumber π) = (knownFields? t).map (OrderedMap.mapValues (Ty.renumber π)) := by
  cases t with
  | record row => exact congrArg some (row.renumber_fields π)
  | app h as =>
      have hfields (labels : List Label) : OrderedMap.ofList (labels.zip (as.map (Ty.renumber π))) =
          OrderedMap.mapValues (Ty.renumber π) (OrderedMap.ofList (labels.zip as)) := by
        rw [OrderedMap.mapValues_ofList, List.zip_map_right]
        rfl
      have hlabels := Ty.positionalLabels?_renumber (π := π) (.app h as)
      rw [Ty.renumber_app] at hlabels ⊢
      rw [knownFields?, knownFields?, hlabels, Option.map_map]
      exact congrArg (Option.map · _) (funext hfields)
  | _ => rfl

theorem uniform_replaceField (base : Ty) (fields? : Option (OrderedMap String Ty)) (name : String) (value : TypedExpr) :
    Uniform plainly fun v : Variant r => replaceField (base.renumber v.numbers)
      (fields?.map (OrderedMap.mapValues (Ty.renumber v.numbers))) name (value.renumber v.numbers) := by
  cases fields? with
  | none => exact uniform_pure (σ := plainly) ()
  | some fields =>
      simp only [replaceField, Option.map_some, OrderedMap.find?_mapValues]
      cases fields.find? name with
      | some t => exact uniform_equateExpr _ t value
      | none =>
          simp only [Option.map_none, TypedExpr.id_renumber, unknownField, fun v : Variant r => base.display_renumber v.ascends]
          exact uniform_report value.id _

theorem uniform_update (id : NodeId) {inferRecord : Variant r → InferM TypedExpr}
    {inferFields : Variant r → (String → TypedExpr → InferM Unit) → InferM (List (String × TypedExpr))}
    (hrecord : Uniform TypedExpr.renumber inferRecord)
    (hfields : ∀ after : Variant r → String → TypedExpr → InferM Unit,
      (∀ name (e : TypedExpr), Uniform plainly fun v => after v name (e.renumber v.numbers)) →
        Uniform (fun π => OrderedMap.mapValues (TypedExpr.renumber π)) fun v => inferFields v (after v)) :
    Uniform TypedExpr.renumber fun v : Variant r => update id (inferRecord v) (inferFields v) := by
  refine hrecord.bind fun base => ?_
  refine uniform_flush.bind fun _ => ?_
  simp only [TypedExpr.ty_renumber, TypedExpr.effects_renumber]
  refine (uniform_applied base.ty).bind fun t => ?_
  simp only [knownFields?_renumber, Option.isNone_map, unknownShape, fun v : Variant r => t.display_renumber v.ascends]
  have hrest : Uniform TypedExpr.renumber fun v : Variant r => do
      let fields ← inferFields v (replaceField (t.renumber v.numbers) ((knownFields? t).map (OrderedMap.mapValues (Ty.renumber v.numbers))))
      let effects ← joinEffects id (base.effects.renumber v.numbers :: fields.map fun f => f.2.effects)
      return .update ⟨id, t.renumber v.numbers, effects⟩ (base.renumber v.numbers) fields := by
    refine (hfields _ (uniform_replaceField t (knownFields? t))).bind fun fields => ?_
    simp only [effects_fields, ← List.map_cons]
    refine (uniform_joinEffects id _).bind fun effects => ?_
    refine uniform_pure_of_eq (TypedExpr.update ⟨id, t, effects⟩ base fields) fun v => ?_
    rw [TypedExpr.renumber_update]
  exact uniform_ite (fun _ => (uniform_report id _).bind fun _ => hrest) fun _ => hrest

end Records

section Collections

variable {session : Session} {env : Env}

theorem uniform_list (id : NodeId) {inferElems : Variant r → (TypedExpr → InferM Unit) → InferM (List TypedExpr)}
    (helems : ∀ after : Variant r → TypedExpr → InferM Unit,
      (∀ e : TypedExpr, Uniform plainly fun v => after v (e.renumber v.numbers)) →
        Uniform (fun π => List.map (TypedExpr.renumber π)) fun v => inferElems v (after v)) :
    Uniform TypedExpr.renumber fun v : Variant r => list id (inferElems v) := by
  refine uniform_freshType.bind fun elem => ?_
  refine (helems _ (uniform_equateExpr .listElement elem)).bind fun elems => ?_
  simp only [TypedExpr.allEffects_renumber]
  refine (uniform_joinEffects id _).bind fun effects => ?_
  refine uniform_pure_of_eq (TypedExpr.list ⟨id, .list elem, effects⟩ elems) fun v => ?_
  rw [TypedExpr.renumber_list, Ty.renumber_list]

theorem uniform_tuple (id : NodeId) {inferElems : Variant r → InferM (List TypedExpr)}
    (helems : Uniform (fun π => List.map (TypedExpr.renumber π)) inferElems) :
    Uniform TypedExpr.renumber fun v : Variant r => tuple id (inferElems v) := by
  refine helems.bind fun elems => ?_
  simp only [TypedExpr.allEffects_renumber]
  refine (uniform_joinEffects id _).bind fun effects => ?_
  refine uniform_pure_of_eq (TypedExpr.tuple ⟨id, .tuple (elems.map TypedExpr.ty), effects⟩ elems) fun v => ?_
  rw [TypedExpr.renumber_tuple, Ty.renumber_tuple, TypedExpr.types_renumber]

theorem uniform_arm (index : Nat) (scrutinee result : Ty) (pattern : Pattern) {inferBody : Variant r → Env → InferM TypedExpr}
    (hbody : ∀ env : Env, Uniform TypedExpr.renumber fun v => inferBody v (env.renumber v.numbers)) :
    Uniform (fun π => Prod.map (TypedPattern.renumber π) (TypedExpr.renumber π)) fun v : Variant r =>
      arm (v.session session) (env.renumber v.numbers) index (scrutinee.renumber v.numbers) (result.renumber v.numbers) pattern
        (inferBody v) := by
  refine uniform_within _ ((uniform_inferPattern [] pattern).bind ?_)
  rintro ⟨p, bound⟩
  have hunder : Uniform TypedExpr.renumber fun v => inferBody v ((env.renumber v.numbers).nest
      (OrderedMap.mapValues Scheme.mono (bound.renumber v.numbers))) := by
    simp only [BoundNames.renumber, Env.nest_mono_renumber]
    exact hbody _
  refine (uniform_equatePattern _ scrutinee p).bind fun _ => ?_
  refine hunder.bind fun body => ?_
  exact (uniform_equateExpr _ result body).bind fun _ => uniform_pure (p, body)

theorem uniform_caseOf (id : NodeId) {inferScrutinee : Variant r → InferM TypedExpr}
    {inferArms : Variant r → Ty → Ty → InferM (List (TypedPattern × TypedExpr))} (hscrutinee : Uniform TypedExpr.renumber inferScrutinee)
    (harms : ∀ scrutinee result : Ty, Uniform (fun π => List.map (Prod.map (TypedPattern.renumber π) (TypedExpr.renumber π))) fun v =>
      inferArms v (scrutinee.renumber v.numbers) (result.renumber v.numbers)) :
    Uniform TypedExpr.renumber fun v : Variant r => caseOf id (inferScrutinee v) (inferArms v) := by
  refine Uniform.bind (σ := fun π => Prod.map (TypedExpr.renumber π) (Prod.map (Ty.renumber π)
    (List.map (Prod.map (TypedPattern.renumber π) (TypedExpr.renumber π))))) (uniform_within _ ?_) fun (scrutinee, result, arms) => ?_
  · refine hscrutinee.bind fun scrutinee => ?_
    refine uniform_freshType.bind fun result => ?_
    simp only [TypedExpr.ty_renumber]
    exact (harms scrutinee.ty result).bind fun arms => uniform_pure (scrutinee, result, arms)
  · have heffects (v : Variant r) : (arms.map (Prod.map (TypedPattern.renumber v.numbers) (TypedExpr.renumber v.numbers))).map
        (fun a => a.2.effects) = (arms.map fun a => a.2.effects).map (Effects.renumber v.numbers) :=
      map_map_comm fun a _ => a.2.effects_renumber
    simp only [Prod.map, TypedExpr.effects_renumber, heffects, ← List.map_cons]
    refine (uniform_joinEffects id _).bind fun effects => ?_
    refine uniform_pure_of_eq (TypedExpr.caseOf ⟨id, result, effects⟩ scrutinee arms) fun v => ?_
    rw [TypedExpr.renumber_caseOf]

end Collections

end RowTyping.InferM
