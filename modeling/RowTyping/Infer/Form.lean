import RowTyping.Infer.Effects
import RowTyping.Infer.Pattern

namespace RowTyping.InferM

def pureNode (id : NodeId) (t : Ty) : NodeInfo :=
  ⟨id, t, none⟩

def variableUse (env : Env) (id : NodeId) (name : String) : InferM TypedExpr := do
  match env.lookup name with
  | some scheme => return .var (pureNode id (← instantiate scheme id)) name
  | none =>
      report id (.error .undefinedName ("undefined variable `" ++ name ++ "`"))
      return .var (pureNode id (← freshType)) name

def function (session : Session) (env : Env) (lambda : Expr) (params : List String)
    (inferBody : Env → InferM TypedExpr) : InferM TypedExpr := do
  let (params, body, latent) ← within "lambda" do
    checkCaptures session env lambda
    let types ← params.mapM fun _ => freshType
    let params := params.zip types
    let body ← inferBody (env.nest (params.map fun p => (p.1, .mono p.2)))
    return (params, body, ← latentEffects session lambda.id body.effects)
  return .lambda (pureNode lambda.id (.fn (params.map Prod.snd) latent body.ty)) params body

def callLabel : Expr → String
  | .var _ name => "call " ++ name
  | _ => "application"

def passArguments (index : Nat) : List Ty → List TypedExpr → InferM Unit
  | param :: params, arg :: args => do
      let actual ← openLatentEffects (← applied arg.ty)
      equate arg.id (.functionArg index) param actual
      passArguments (index + 1) params args
  | _, _ => return

def callee (id funcId : NodeId) (args : List TypedExpr) (func : Ty) : InferM (Ty × Effects) := do
  match func with
  | .fn params latent result =>
      if params.length = args.length then
        passArguments 0 params args
        return (result, latent)
      else
        report id (.error .arityMismatch ("function takes " ++ toString params.length
          ++ " argument(s) but " ++ toString args.length ++ " were supplied"))
        return (← freshType, none)
  | other =>
      let result ← freshType
      let latent := Effects.opened [] (← freshRow)
      equate funcId .application (.fn (args.map TypedExpr.ty) latent result) other
      return (result, latent)

def application (id : NodeId) (func : Expr) (inferFunc : InferM TypedExpr) (inferArgs : InferM (List TypedExpr)) :
    InferM TypedExpr := do
  let (func, args, result, latent) ← within (callLabel func) do
    let func ← inferFunc
    let args ← inferArgs
    flush
    let (result, latent) ← callee id func.id args (← applied func.ty)
    flush
    return (func, args, result, latent)
  let effects ← joinEffects id (func.effects :: args.map TypedExpr.effects ++ [latent])
  return .app ⟨id, result, effects⟩ func args

def letIn (session : Session) (env : Env) (id : NodeId) (name : String) (value : Expr)
    (inferValue : InferM TypedExpr) (inferBody : Env → InferM TypedExpr) : InferM TypedExpr := do
  let (scheme, value) ← within (Decl.letLabel name) (binding session env value .nested inferValue)
  let body ← inferBody (env.nest [(name, scheme)])
  let effects ← joinEffects id [value.effects, body.effects]
  return .letIn ⟨id, body.ty, effects⟩ name scheme value body

def letRec (session : Session) (env : Env) (id : NodeId) (bindings : List Binding)
    (inferValues : Env → List Ty → InferM (List TypedExpr)) (inferBody : Env → InferM TypedExpr) :
    InferM TypedExpr := do
  let bindings ← within (Decl.letRecLabel bindings) (recGroup session env id bindings .nested inferValues)
  let body ← inferBody (env.nest (bindings.map fun b => (b.name, b.scheme)))
  let effects ← joinEffects id (bindings.map (fun b => b.value.effects) ++ [body.effects])
  return .letRec ⟨id, body.ty, effects⟩ bindings body

def cond (id : NodeId) (inferCondition inferThen inferElse : InferM TypedExpr) : InferM TypedExpr := do
  let (c, t, e) ← within "if" do
    let c ← inferCondition
    equate c.id .ifCondition .bool c.ty
    let t ← inferThen
    let e ← inferElse
    equate id .ifBranches t.ty e.ty
    return (c, t, e)
  let effects ← joinEffects id [c.effects, t.effects, e.effects]
  return .cond ⟨id, t.ty, effects⟩ c t e

def numericClass (t : Ty) : InferM String :=
  return if (← get).hasClass t "Fractional" then "Fractional" else "Num"

def concatenation (id : NodeId) (left right : Ty) : InferM (ConcatKind × Ty) := do
  flush
  let l ← applied left
  let r ← applied right
  let known := if l.isVar then r else l
  let (kind, t) ←
    if known.isCon "String" then pure (ConcatKind.string, Ty.string)
    else
      match known with
      | .list _ => pure (ConcatKind.list, known)
      | .var _ => pure (ConcatKind.list, Ty.list (← freshType))
      | other =>
          report id (.error .typeMismatch ("`++` needs strings or lists, got " ++ other.display))
          pure (ConcatKind.list, ← freshType)
  equate id (.binaryOp .concat) t l
  equate id (.binaryOp .concat) t r
  return (kind, t)

def operation (id : NodeId) (op : BinaryOp) (left right : TypedExpr) : InferM Ty := do
  if op.isLogical then
    equate left.id (.binaryOp op) .bool left.ty
    equate right.id (.binaryOp op) .bool right.ty
    return .bool
  equate id (.binaryOp op) left.ty right.ty
  flush
  let operand ← applied left.ty
  if op.isArithmetic then
    let className ← if op = .mod then pure "Integral" else numericClass operand
    addClass className operand id .operator
    return operand
  addClass (if op.isComparison then "Ord" else "Eq") operand id .operator
  return .bool

def binary (id : NodeId) (op : BinaryOp) (inferLeft inferRight : InferM TypedExpr) : InferM TypedExpr := do
  let left ← inferLeft
  let right ← inferRight
  let effects ← joinEffects id [left.effects, right.effects]
  if op = .concat then
    let (kind, t) ← concatenation id left.ty right.ty
    return .concat ⟨id, t, effects⟩ kind left right
  return .binary ⟨id, ← operation id op left right, effects⟩ op left right

def negation (id : NodeId) (operand : Ty) : InferM Ty := do
  flush
  let t ← applied operand
  addClass (← numericClass t) t id .operator
  return t

def unary (id : NodeId) (op : UnaryOp) (inferOperand : InferM TypedExpr) : InferM TypedExpr := do
  let operand ← inferOperand
  match op with
  | .not =>
      equate id (.unaryOp op) .bool operand.ty
      return .unary ⟨id, .bool, operand.effects⟩ op operand
  | .neg => return .unary ⟨id, ← negation id operand.ty, operand.effects⟩ op operand

def fieldLabel (name : String) : String :=
  "field " ++ name

def duplicateField (earlier : List String) (name : String) (value : TypedExpr) : InferM Unit := do
  if earlier.contains name then
    report value.id ((Diagnostic.error .fieldMismatch ("duplicate field `" ++ name ++ "` in record")).withDiff
      [.extra name])

def record (session : Session) (id : NodeId) (inferFields : InferM (List (String × TypedExpr))) :
    InferM TypedExpr := do
  let fields ← inferFields
  let types := OrderedMap.ofList (fields.map fun f => (f.1, f.2.ty))
  let effects ← joinEffects id (fields.map fun f => f.2.effects)
  return .record ⟨id, session.config.encoding.recordType types, effects⟩ fields

def missingField (id : NodeId) (record : Ty) (name : String) : InferM Ty := do
  report id ((Diagnostic.error .fieldMismatch
    ("record " ++ record.display ++ " has no field `" ++ name ++ "`")).withDiff [.missing name])
  freshType

def fieldType (id : NodeId) (record : Ty) (name : String) : InferM Ty := do
  flush
  let record ← applied record
  match record.positionalLabels? with
  | some labels =>
      match (labels.idxOf? name).bind fun i => record.arguments[i]? with
      | some t => return t
      | none => missingField id record name
  | none =>
      let t ← freshType
      let rest ← freshRow
      equate id (.recordField name) (.record (.openRecord [(name, t)] rest)) record
      return t

def field (id : NodeId) (inferRecord : InferM TypedExpr) (name : String) : InferM TypedExpr := do
  let base ← inferRecord
  return .field ⟨id, ← fieldType id base.ty name, base.effects⟩ base name

def knownFields? : Ty → Option (OrderedMap String Ty)
  | .record r => some r.fields
  | .app h args => (Ty.positionalLabels? (.app h args)).map fun labels => OrderedMap.ofList (labels.zip args)
  | _ => none

def unknownShape (base : Ty) : Diagnostic :=
  (Diagnostic.error .typeMismatch ("record update needs a record of known shape, got " ++ base.display)).withHelp
    "construct the record or access one of its fields before updating it"

def unknownField (base : Ty) (name : String) : Diagnostic :=
  ((Diagnostic.error .fieldMismatch
    ("cannot update unknown field `" ++ name ++ "` of " ++ base.display)).withDiff [.extra name]).withHelp
    Category.fieldMismatch.exampleFix

def replaceField (base : Ty) (fields? : Option (OrderedMap String Ty)) (name : String) (value : TypedExpr) :
    InferM Unit := do
  match fields? with
  | none => pure ()
  | some fields =>
      match fields.find? name with
      | some t => equate value.id (.recordField name) t value.ty
      | none => report value.id (unknownField base name)

def update (id : NodeId) (inferRecord : InferM TypedExpr)
    (inferFields : (String → TypedExpr → InferM Unit) → InferM (List (String × TypedExpr))) :
    InferM TypedExpr := do
  let base ← inferRecord
  flush
  let t ← applied base.ty
  let fields? := knownFields? t
  if fields?.isNone then report id (unknownShape t)
  let fields ← inferFields (replaceField t fields?)
  let effects ← joinEffects id (base.effects :: fields.map fun f => f.2.effects)
  return .update ⟨id, t, effects⟩ base fields

def list (id : NodeId) (inferElems : (TypedExpr → InferM Unit) → InferM (List TypedExpr)) :
    InferM TypedExpr := do
  let elem ← freshType
  let elems ← inferElems fun e => equate e.id .listElement elem e.ty
  let effects ← joinEffects id (elems.map TypedExpr.effects)
  return .list ⟨id, .list elem, effects⟩ elems

def tuple (id : NodeId) (inferElems : InferM (List TypedExpr)) : InferM TypedExpr := do
  let elems ← inferElems
  let effects ← joinEffects id (elems.map TypedExpr.effects)
  return .tuple ⟨id, .tuple (elems.map TypedExpr.ty), effects⟩ elems

def arm (session : Session) (env : Env) (index : Nat) (scrutinee result : Ty) (pattern : Pattern)
    (inferBody : Env → InferM TypedExpr) : InferM (TypedPattern × TypedExpr) :=
  within ("arm " ++ toString (index + 1)) do
    let (p, bound) ← inferPattern session [] pattern
    equate p.id .patternMatch scrutinee p.ty
    let body ← inferBody (env.nest (bound.mapValues Scheme.mono))
    equate body.id .matchArms result body.ty
    return (p, body)

def caseOf (id : NodeId) (inferScrutinee : InferM TypedExpr)
    (inferArms : Ty → Ty → InferM (List (TypedPattern × TypedExpr))) : InferM TypedExpr := do
  let (scrutinee, result, arms) ← within "match" do
    let scrutinee ← inferScrutinee
    let result ← freshType
    return (scrutinee, result, ← inferArms scrutinee.ty result)
  let effects ← joinEffects id (scrutinee.effects :: arms.map fun a => a.2.effects)
  return .caseOf ⟨id, result, effects⟩ scrutinee arms

end RowTyping.InferM
