import RowTyping.Expr.FreeNames
import RowTyping.Infer.Boundary

namespace RowTyping.InferM

def joinEffects (node : NodeId) (rows : List Effects) : InferM Effects := do
  let rows := rows.map (← get).subst.applyEffects
  match OrderedSet.ofList (rows.filterMap Effects.tail) with
  | first :: second :: others =>
      (second :: others).forM fun r =>
        equateRows node .effectJoin (.openEffects [] first) (.openEffects [] r)
      flush
  | _ => pure ()
  return Effects.normalize ((← get).subst.applyEffects (Effects.unionAll rows))

def openLatentEffects (t : Ty) : InferM Ty := do
  match t with
  | .fn ps e r =>
      if (Effects.tail e).isSome then return t
      else return .fn ps (Effects.opened (Effects.labels e) (← freshRow)) r
  | _ => return t

def checkSignature (node : NodeId) (body declared : Effects) : InferM Unit := do
  flush
  let c ← get
  let actual := c.subst.applyEffects body
  if actual.tail.isSome then
    equateRows node .declaredEffects declared.toRow actual.toRow
    flush
  else if !Effects.subsumed actual declared then
    let extra := actual.labels.filter fun l => !declared.labels.contains l
    let e := UnifyError.rows .effectRow [] extra
    report node (e.diagnostic (Effects.text declared) (Effects.text actual) ⟨node, c.path, .declaredEffects⟩)

def captureDiagnostic (name capability : String) : Diagnostic :=
  (Diagnostic.error .capabilityCapture
    ("lambda captures `" ++ name ++ "`, which carries the linear capability " ++ capability)).withHelp
    ("pass `" ++ name ++ "` to the lambda as a parameter")

def checkCaptures (session : Session) (env : Env) (lambda : Expr) : InferM Unit := do
  let capabilities := session.config.linearCapabilities
  if capabilities.isEmpty then return
  flush
  lambda.freeNames.forM fun name => do
    match env.lookupLocal name with
    | none => pure ()
    | some scheme =>
        match (← applied scheme.ty).latentLabels.find? capabilities.contains with
        | none => pure ()
        | some capability => report lambda.id (captureDiagnostic name capability)

def latentEffects (session : Session) (node : NodeId) (body : Effects) : InferM Effects := do
  match session.signatures.find? node with
  | none => return body
  | some names =>
      match Effects.elaborate names with
      | .ok declared =>
          checkSignature node body declared
          return declared
      | .error d =>
          report node d
          return body

end RowTyping.InferM
