import RowTyping.Proofs.Typing
import RowTyping.Proofs.Unmentioned

namespace RowTyping

namespace TypedPattern

mutual

def erase : TypedPattern → Pattern
  | .wildcard id _ => .wildcard id
  | .var id _ name => .var id name
  | .lit id _ l => .lit id l
  | .tuple id _ ps => .tuple id (eraseAll ps)
  | .list id _ ps rest => .list id (eraseAll ps) (eraseRest rest)
  | .record id _ fs isOpen => .record id (eraseFields fs) isOpen
termination_by structural p => p

def eraseAll : List TypedPattern → List Pattern
  | [] => []
  | p :: ps => p.erase :: eraseAll ps
termination_by structural ps => ps

def eraseRest : Option TypedPattern → Option Pattern
  | none => none
  | some p => some p.erase
termination_by structural p => p

def eraseFields : List (String × TypedPattern) → List (String × Pattern)
  | [] => []
  | (name, p) :: fs => (name, p.erase) :: eraseFields fs
termination_by structural fs => fs

end

end TypedPattern

namespace TypedExpr

mutual

def erase : TypedExpr → Expr
  | .lit i l => .lit i.id l
  | .var i name => .var i.id name
  | .lambda i params body => .lambda i.id (params.map Prod.fst) body.erase
  | .app i func args => .app i.id func.erase (eraseAll args)
  | .letIn i name _ value body => .letIn i.id name value.erase body.erase
  | .letRec i bindings body => .letRec i.id (eraseBindings bindings) body.erase
  | .cond i c t f => .cond i.id c.erase t.erase f.erase
  | .binary i op l r => .binary i.id op l.erase r.erase
  | .concat i _ l r => .binary i.id .concat l.erase r.erase
  | .unary i op operand => .unary i.id op operand.erase
  | .record i fs => .record i.id (eraseFields fs)
  | .field i base name => .field i.id base.erase name
  | .update i base fs => .update i.id base.erase (eraseFields fs)
  | .list i es => .list i.id (eraseAll es)
  | .tuple i es => .tuple i.id (eraseAll es)
  | .caseOf i scrutinee arms => .caseOf i.id scrutinee.erase (eraseArms arms)
termination_by structural e => e

def eraseAll : List TypedExpr → List Expr
  | [] => []
  | e :: es => e.erase :: eraseAll es
termination_by structural es => es

def eraseFields : List (String × TypedExpr) → List (String × Expr)
  | [] => []
  | (name, e) :: fs => (name, e.erase) :: eraseFields fs
termination_by structural fs => fs

def eraseBindings : List TypedBinding → List Binding
  | [] => []
  | ⟨name, _, e⟩ :: bs => (name, e.erase) :: eraseBindings bs
termination_by structural bs => bs

def eraseArms : List (TypedPattern × TypedExpr) → List (Pattern × Expr)
  | [] => []
  | (p, e) :: arms => (p.erase, e.erase) :: eraseArms arms
termination_by structural arms => arms

end

theorem eraseBindings_eq (bs : List TypedBinding) : eraseBindings bs = bs.map fun b => (b.name, b.value.erase) := by
  induction bs with
  | nil => rfl
  | cons b bs ih =>
      obtain ⟨name, scheme, value⟩ := b
      rw [eraseBindings, ih, List.map_cons]

end TypedExpr

namespace Substitution

variable (s : Substitution)

mutual

theorem erase_applyPattern : ∀ p : TypedPattern, (s.applyPattern p).erase = p.erase
  | .wildcard _ _ => rfl
  | .var _ _ _ => rfl
  | .lit _ _ _ => rfl
  | .tuple id _ ps => congrArg (Pattern.tuple id) (erase_applyPatterns ps)
  | .list id _ ps rest => congrArg₂ (Pattern.list id) (erase_applyPatterns ps) (erase_applyPatternRest rest)
  | .record id _ fs isOpen => congrArg (Pattern.record id · isOpen) (erase_applyPatternFields fs)

theorem erase_applyPatterns : ∀ ps : List TypedPattern, TypedPattern.eraseAll (s.applyPatterns ps) = TypedPattern.eraseAll ps
  | [] => rfl
  | p :: ps => congrArg₂ List.cons (erase_applyPattern p) (erase_applyPatterns ps)

theorem erase_applyPatternRest : ∀ p : Option TypedPattern,
    TypedPattern.eraseRest (s.applyPatternRest p) = TypedPattern.eraseRest p
  | none => rfl
  | some p => congrArg some (erase_applyPattern p)

theorem erase_applyPatternFields :
    ∀ fs : List (String × TypedPattern), TypedPattern.eraseFields (s.applyPatternFields fs) = TypedPattern.eraseFields fs
  | [] => rfl
  | (name, p) :: fs => congrArg₂ List.cons (congrArg (Prod.mk name) (erase_applyPattern p)) (erase_applyPatternFields fs)

end

section

open TypedExpr

mutual

theorem erase_applyExpr : ∀ e : TypedExpr, (s.applyExpr e).erase = e.erase
  | .lit _ _ => rfl
  | .var _ _ => rfl
  | .lambda _ params body => by simp [applyExpr, erase, applyInfo, erase_applyExpr body]
  | .app _ func args => by simp [applyExpr, erase, applyInfo, erase_applyExpr func, erase_applyExprs args]
  | .letIn _ _ _ value body => by simp [applyExpr, erase, applyInfo, erase_applyExpr value, erase_applyExpr body]
  | .letRec _ bindings body => by simp [applyExpr, erase, applyInfo, erase_applyBindings bindings, erase_applyExpr body]
  | .cond _ c t f => by simp [applyExpr, erase, applyInfo, erase_applyExpr c, erase_applyExpr t, erase_applyExpr f]
  | .binary _ _ l r => by simp [applyExpr, erase, applyInfo, erase_applyExpr l, erase_applyExpr r]
  | .concat _ _ l r => by simp [applyExpr, erase, applyInfo, erase_applyExpr l, erase_applyExpr r]
  | .unary _ _ operand => by simp [applyExpr, erase, applyInfo, erase_applyExpr operand]
  | .record _ fs => by simp [applyExpr, erase, applyInfo, erase_applyExprFields fs]
  | .field _ base _ => by simp [applyExpr, erase, applyInfo, erase_applyExpr base]
  | .update _ base fs => by simp [applyExpr, erase, applyInfo, erase_applyExpr base, erase_applyExprFields fs]
  | .list _ es => by simp [applyExpr, erase, applyInfo, erase_applyExprs es]
  | .tuple _ es => by simp [applyExpr, erase, applyInfo, erase_applyExprs es]
  | .caseOf _ scrutinee arms => by simp [applyExpr, erase, applyInfo, erase_applyExpr scrutinee, erase_applyArms arms]

theorem erase_applyExprs : ∀ es : List TypedExpr, eraseAll (s.applyExprs es) = eraseAll es
  | [] => rfl
  | e :: es => congrArg₂ List.cons (erase_applyExpr e) (erase_applyExprs es)

theorem erase_applyExprFields :
    ∀ fs : List (String × TypedExpr), eraseFields (s.applyExprFields fs) = eraseFields fs
  | [] => rfl
  | (name, e) :: fs => congrArg₂ List.cons (congrArg (Prod.mk name) (erase_applyExpr e)) (erase_applyExprFields fs)

theorem erase_applyBindings : ∀ bs : List TypedBinding, eraseBindings (s.applyBindings bs) = eraseBindings bs
  | [] => rfl
  | ⟨name, _, e⟩ :: bs => congrArg₂ List.cons (congrArg (Prod.mk name) (erase_applyExpr e)) (erase_applyBindings bs)

theorem erase_applyArms : ∀ arms : List (TypedPattern × TypedExpr), eraseArms (s.applyArms arms) = eraseArms arms
  | [] => rfl
  | (p, e) :: arms =>
      congrArg₂ List.cons (congrArg₂ Prod.mk (s.erase_applyPattern p) (erase_applyExpr e)) (erase_applyArms arms)

end

end

end Substitution

namespace InferM

variable {α β γ : Type} {session : Session} {env : Env} {id : NodeId}

def Erases (m : InferM α) (erase : α → β) (b : β) : Prop :=
  ∀ c, Ensures m c fun a _ => erase a = b

theorem erases_pure {a : α} {erase : α → β} {b : β} (h : erase a = b) : Erases (pure a) erase b :=
  fun _ => h

theorem erases_after {m : InferM α} {f : α → InferM γ} {erase : γ → β} {b : β} (h : ∀ a, Erases (f a) erase b) :
    Erases (m >>= f) erase b :=
  fun _ => .bind (Q := fun _ _ => True) trivial fun a c' _ => h a c'

theorem Erases.bind {δ : Type} {m : InferM α} {f : α → InferM γ} {erase : α → β} {b : β} {erase' : γ → δ} {d : δ}
    (hm : Erases m erase b) (hf : ∀ a, erase a = b → Erases (f a) erase' d) : Erases (m >>= f) erase' d :=
  fun c => (hm c).bind fun a c' ha => hf a ha c'

theorem Erases.within {m : InferM α} {g : α → β} {b : β} (h : Erases m g b) (label : String) : Erases (within label m) g b := by
  refine erases_after fun _ => ?_
  refine h.bind fun _ ha => ?_
  exact erases_after fun _ => erases_pure ha

theorem Erases.noted {m : InferM TypedExpr} {e : Expr} (h : Erases m TypedExpr.erase e) : Erases (noted e m) TypedExpr.erase e :=
  fun c => (h c).noted fun _ _ ha => ha

theorem erases_mapM {f : α → InferM β} (as : List α) : Erases (as.mapM f) List.length as.length :=
  ensures_mapM_length as

section Patterns

theorem erases_bindName (id : NodeId) (bound : BoundNames) (name : String) :
    Erases (bindName id bound name) (fun x => x.1.erase) (.var id name) := by
  refine erases_after fun t => ?_
  split
  next => exact erases_after fun _ => erases_pure rfl
  next => exact erases_pure rfl

variable (session) in
mutual

theorem erases_inferPattern : ∀ (p : Pattern) (bound : BoundNames), Erases (inferPattern session bound p) (fun x => x.1.erase) p
  | .wildcard _, _ => erases_after fun _ => erases_pure rfl
  | .var id name, bound => erases_bindName id bound name
  | .lit _ _, _ => erases_after fun _ => erases_pure rfl
  | .tuple id ps, bound => (erases_inferPatterns ps _ bound).bind fun _ h => erases_pure (congrArg (Pattern.tuple id) h)
  | .list id ps rest, bound => erases_after fun _ => (erases_inferPatterns ps _ bound).bind fun x h =>
      (erases_inferPatternRest rest _ x.2).bind fun _ h' => erases_pure (congrArg₂ (Pattern.list id) h h')
  | .record id fs isOpen, bound => (erases_inferPatternFields fs bound).bind fun _ h =>
      erases_after fun _ => erases_pure (congrArg (Pattern.record id · isOpen) h)

theorem erases_inferPatterns : ∀ (ps : List Pattern) (after : TypedPattern → InferM Unit) (bound : BoundNames),
    Erases (inferPatterns session after bound ps) (fun x => TypedPattern.eraseAll x.1) ps
  | [], _, _ => erases_pure rfl
  | p :: ps, after, bound => (erases_inferPattern p bound).bind fun x h => erases_after fun _ =>
      (erases_inferPatterns ps after x.2).bind fun _ h' => erases_pure (congrArg₂ List.cons h h')

theorem erases_inferPatternRest : ∀ (p : Option Pattern) (after : TypedPattern → InferM Unit) (bound : BoundNames),
    Erases (inferPatternRest session after bound p) (fun x => TypedPattern.eraseRest x.1) p
  | none, _, _ => erases_pure rfl
  | some p, _, bound => (erases_inferPattern p bound).bind fun _ h => erases_after fun _ => erases_pure (congrArg some h)

theorem erases_inferPatternFields : ∀ (fs : List (String × Pattern)) (bound : BoundNames),
    Erases (inferPatternFields session bound fs) (fun x => TypedPattern.eraseFields x.1) fs
  | [], _ => erases_pure rfl
  | (name, p) :: fs, bound => (erases_inferPattern p bound).bind fun x h =>
      (erases_inferPatternFields fs x.2).bind fun _ h' => erases_pure (congrArg₂ List.cons (congrArg (Prod.mk name) h) h')

end

end Patterns

section Boundaries

theorem erases_closeBoundary (node : NodeId) (ts : List Ty) (level : BindingLevel) (generalizable : Bool) :
    Erases (closeBoundary session env node ts level generalizable) List.length ts.length :=
  closeBoundary_length node ts level generalizable

theorem erases_binding {m : InferM TypedExpr} {value : Expr} (h : Erases m TypedExpr.erase value) (level : BindingLevel) :
    Erases (binding session env value level m) (fun b => b.2.erase) value := by
  refine erases_after fun _ => ?_
  refine h.bind fun _ h => ?_
  refine erases_after fun _ => ?_
  exact erases_after fun c => erases_pure ((c.subst.erase_applyExpr _).trans h)

theorem erases_topLevel {m : InferM TypedExpr} {e : Expr} (h : Erases m TypedExpr.erase e) :
    Erases (topLevel session env e m) TypedExpr.erase e := by
  refine erases_after fun _ => ?_
  refine h.bind fun _ h => ?_
  refine erases_after fun _ => ?_
  exact erases_after fun c => erases_pure ((c.subst.erase_applyExpr _).trans h)

theorem erases_recGroup (node : NodeId) (bindings : List Binding) (level : BindingLevel) {infer : Env → List Ty → InferM (List TypedExpr)}
    (h : ∀ env ts, Erases (infer env ts) (List.map TypedExpr.erase) (bindings.map Prod.snd)) :
    Erases (recGroup session env node bindings level infer) TypedExpr.eraseBindings bindings := by
  refine erases_after fun _ => ?_
  refine (erases_mapM bindings).bind fun ts hts => ?_
  refine (h _ ts).bind fun values hvalues => ?_
  refine (erases_closeBoundary node ts level _).bind fun schemes hschemes => ?_
  refine erases_after fun c => erases_pure ?_
  have hcount : values.length = bindings.length := by
    simpa only [List.length_map] using congrArg List.length hvalues
  have hlength : values.length ≤ schemes.length := by
    rw [hschemes, hts, hcount]
  have herased : (values.zip schemes).map (fun x => x.1.erase) = bindings.map Prod.snd := by
    have hfst := congrArg (List.map TypedExpr.erase) (List.map_fst_zip hlength)
    rw [List.map_map, hvalues] at hfst
    exact hfst
  calc TypedExpr.eraseBindings (((bindings.map Prod.fst).zip (values.zip schemes)).map fun x =>
          ⟨x.1, x.2.2, c.subst.applyExpr x.2.1⟩)
      = ((bindings.map Prod.fst).zip (values.zip schemes)).map fun x => (x.1, x.2.1.erase) := by
        rw [TypedExpr.eraseBindings_eq, List.map_map]
        exact List.map_congr_left fun x _ => congrArg (Prod.mk x.1) (c.subst.erase_applyExpr x.2.1)
    _ = (bindings.map Prod.fst).zip (bindings.map Prod.snd) := by
        rw [← herased, List.zip_map_right]
        rfl
    _ = bindings := by
        rw [List.zip_map']
        exact List.map_id bindings

end Boundaries

section Forms

theorem erases_lit (l : Literal) : Erases (literalType id l >>= fun t => pure (.lit (pureNode id t) l)) TypedExpr.erase (.lit id l) :=
  erases_after fun _ => erases_pure rfl

theorem erases_variableUse (name : String) : Erases (variableUse env id name) TypedExpr.erase (.var id name) := by
  rw [variableUse]
  split
  next => exact erases_after fun _ => erases_pure rfl
  next =>
    refine erases_after fun _ => ?_
    exact erases_after fun _ => erases_pure rfl

theorem erases_function (params : List String) {body : Expr} {inferBody : Env → InferM TypedExpr}
    (h : ∀ env, Erases (inferBody env) TypedExpr.erase body) :
    Erases (function session env (.lambda id params body) params inferBody) TypedExpr.erase (.lambda id params body) := by
  refine (Erases.within (b := (params, body)) (g := fun x => (x.1.map Prod.fst, x.2.1.erase)) ?_ _).bind fun x hx => ?_
  · refine erases_after fun _ => ?_
    refine (erases_mapM params).bind fun types hlength => ?_
    refine (h _).bind fun typed htyped => ?_
    refine erases_after fun _ => ?_
    exact erases_pure (congrArg₂ Prod.mk (List.map_fst_zip hlength.ge) htyped)
  · obtain ⟨hparams, hbody⟩ := Prod.mk.inj hx
    exact erases_pure (congrArg₂ (Expr.lambda id) hparams hbody)

theorem erases_application {func : Expr} {args : List Expr} {inferFunc : InferM TypedExpr} {inferArgs : InferM (List TypedExpr)}
    (hfunc : Erases inferFunc TypedExpr.erase func) (hargs : Erases inferArgs TypedExpr.eraseAll args) :
    Erases (application id func inferFunc inferArgs) TypedExpr.erase (.app id func args) := by
  refine (Erases.within (b := (func, args)) (g := fun x => (x.1.erase, TypedExpr.eraseAll x.2.1)) ?_ _).bind fun x hx => ?_
  · refine hfunc.bind fun _ hfunc => ?_
    refine hargs.bind fun _ hargs => ?_
    refine erases_after fun _ => ?_
    refine erases_after fun _ => ?_
    refine erases_after fun _ => ?_
    exact erases_after fun _ => erases_pure (congrArg₂ Prod.mk hfunc hargs)
  · obtain ⟨hfunc, hargs⟩ := Prod.mk.inj hx
    exact erases_after fun _ => erases_pure (congrArg₂ (Expr.app id) hfunc hargs)

theorem erases_letIn (name : String) {value body : Expr} {inferValue : InferM TypedExpr} {inferBody : Env → InferM TypedExpr}
    (hvalue : Erases inferValue TypedExpr.erase value) (hbody : ∀ env, Erases (inferBody env) TypedExpr.erase body) :
    Erases (letIn session env id name value inferValue inferBody) TypedExpr.erase (.letIn id name value body) := by
  refine ((erases_binding hvalue .nested).within _).bind fun _ hvalue => ?_
  refine (hbody _).bind fun _ hbody => ?_
  refine erases_after fun _ => ?_
  exact erases_pure (congrArg₂ (Expr.letIn id name) hvalue hbody)

theorem erases_letRec {bindings : List Binding} {body : Expr} {inferValues : Env → List Ty → InferM (List TypedExpr)}
    {inferBody : Env → InferM TypedExpr}
    (hvalues : ∀ env ts, Erases (inferValues env ts) (List.map TypedExpr.erase) (bindings.map Prod.snd))
    (hbody : ∀ env, Erases (inferBody env) TypedExpr.erase body) :
    Erases (letRec session env id bindings inferValues inferBody) TypedExpr.erase (.letRec id bindings body) := by
  refine ((erases_recGroup id bindings .nested hvalues).within _).bind fun _ hbindings => ?_
  refine (hbody _).bind fun _ hbody => ?_
  exact erases_after fun _ => erases_pure (congrArg₂ (Expr.letRec id) hbindings hbody)

theorem erases_cond {c t e : Expr} {inferCondition inferThen inferElse : InferM TypedExpr}
    (hc : Erases inferCondition TypedExpr.erase c) (ht : Erases inferThen TypedExpr.erase t) (he : Erases inferElse TypedExpr.erase e) :
    Erases (cond id inferCondition inferThen inferElse) TypedExpr.erase (.cond id c t e) := by
  refine (Erases.within (b := (c, t, e)) (g := fun x => (x.1.erase, x.2.1.erase, x.2.2.erase)) ?_ _).bind fun x hx => ?_
  · refine hc.bind fun _ hc => ?_
    refine erases_after fun _ => ?_
    refine ht.bind fun _ ht => ?_
    refine he.bind fun _ he => ?_
    refine erases_after fun _ => ?_
    exact erases_pure (congrArg₂ Prod.mk hc (congrArg₂ Prod.mk ht he))
  · obtain ⟨hc, hbranches⟩ := Prod.mk.inj hx
    obtain ⟨ht, he⟩ := Prod.mk.inj hbranches
    refine erases_after fun _ => erases_pure ?_
    rw [TypedExpr.erase, hc, ht, he]

theorem erases_binary (op : BinaryOp) {l r : Expr} {inferLeft inferRight : InferM TypedExpr}
    (hl : Erases inferLeft TypedExpr.erase l) (hr : Erases inferRight TypedExpr.erase r) :
    Erases (binary id op inferLeft inferRight) TypedExpr.erase (.binary id op l r) := by
  refine hl.bind fun _ hl => ?_
  refine hr.bind fun _ hr => ?_
  refine erases_after fun _ => ?_
  split
  next hop =>
    subst hop
    exact erases_after fun _ => erases_pure (congrArg₂ (Expr.binary id .concat) hl hr)
  next => exact erases_after fun _ => erases_pure (congrArg₂ (Expr.binary id op) hl hr)

theorem erases_unary (op : UnaryOp) {operand : Expr} {infer : InferM TypedExpr} (h : Erases infer TypedExpr.erase operand) :
    Erases (unary id op infer) TypedExpr.erase (.unary id op operand) := by
  refine h.bind fun _ h => ?_
  cases op <;> exact erases_after fun _ => erases_pure (congrArg (Expr.unary id _) h)

theorem erases_record {fs : List (String × Expr)} {infer : InferM (List (String × TypedExpr))} (h : Erases infer TypedExpr.eraseFields fs) :
    Erases (record session id infer) TypedExpr.erase (.record id fs) := by
  refine h.bind fun _ h => ?_
  exact erases_after fun _ => erases_pure (congrArg (Expr.record id) h)

theorem erases_field (name : String) {base : Expr} {infer : InferM TypedExpr} (h : Erases infer TypedExpr.erase base) :
    Erases (field id infer name) TypedExpr.erase (.field id base name) := by
  refine h.bind fun _ h => ?_
  exact erases_after fun _ => erases_pure (congrArg (Expr.field id · name) h)

theorem erases_update {base : Expr} {fs : List (String × Expr)} {inferBase : InferM TypedExpr}
    {inferFields : (String → TypedExpr → InferM Unit) → InferM (List (String × TypedExpr))}
    (hbase : Erases inferBase TypedExpr.erase base) (hfields : ∀ after, Erases (inferFields after) TypedExpr.eraseFields fs) :
    Erases (update id inferBase inferFields) TypedExpr.erase (.update id base fs) := by
  refine hbase.bind fun typed hbase => ?_
  refine erases_after fun _ => ?_
  refine erases_after fun t => ?_
  have hrest : Erases (inferFields (replaceField t (knownFields? t)) >>= fun fields =>
      joinEffects id (typed.effects :: fields.map fun f => f.2.effects) >>= fun effects =>
        pure (TypedExpr.update ⟨id, t, effects⟩ typed fields)) TypedExpr.erase (.update id base fs) := by
    refine (hfields _).bind fun _ hfields => ?_
    exact erases_after fun _ => erases_pure (congrArg₂ (Expr.update id) hbase hfields)
  dsimp only
  split
  next => exact erases_after fun _ => hrest
  next => exact hrest

theorem erases_list {es : List Expr} {infer : (TypedExpr → InferM Unit) → InferM (List TypedExpr)}
    (h : ∀ after, Erases (infer after) TypedExpr.eraseAll es) : Erases (list id infer) TypedExpr.erase (.list id es) := by
  refine erases_after fun _ => ?_
  refine (h _).bind fun _ h => ?_
  exact erases_after fun _ => erases_pure (congrArg (Expr.list id) h)

theorem erases_tuple {es : List Expr} {infer : InferM (List TypedExpr)} (h : Erases infer TypedExpr.eraseAll es) :
    Erases (tuple id infer) TypedExpr.erase (.tuple id es) := by
  refine h.bind fun _ h => ?_
  exact erases_after fun _ => erases_pure (congrArg (Expr.tuple id) h)

theorem erases_arm (index : Nat) (scrutinee result : Ty) (p : Pattern) {body : Expr} {inferBody : Env → InferM TypedExpr}
    (h : ∀ env, Erases (inferBody env) TypedExpr.erase body) :
    Erases (arm session env index scrutinee result p inferBody) (fun a => (a.1.erase, a.2.erase)) (p, body) := by
  refine Erases.within ?_ _
  refine (erases_inferPattern session p []).bind fun _ hp => ?_
  refine erases_after fun _ => ?_
  refine (h _).bind fun _ hbody => ?_
  refine erases_after fun _ => ?_
  exact erases_pure (congrArg₂ Prod.mk hp hbody)

theorem erases_caseOf {scrutinee : Expr} {arms : List (Pattern × Expr)} {inferScrutinee : InferM TypedExpr}
    {inferArms : Ty → Ty → InferM (List (TypedPattern × TypedExpr))} (hscrutinee : Erases inferScrutinee TypedExpr.erase scrutinee)
    (harms : ∀ t result, Erases (inferArms t result) TypedExpr.eraseArms arms) :
    Erases (caseOf id inferScrutinee inferArms) TypedExpr.erase (.caseOf id scrutinee arms) := by
  refine (Erases.within (b := (scrutinee, arms)) (g := fun x => (x.1.erase, TypedExpr.eraseArms x.2.2)) ?_ _).bind fun x hx => ?_
  · refine hscrutinee.bind fun _ hscrutinee => ?_
    refine erases_after fun _ => ?_
    refine (harms _ _).bind fun _ harms => ?_
    exact erases_pure (congrArg₂ Prod.mk hscrutinee harms)
  · obtain ⟨hscrutinee, harms⟩ := Prod.mk.inj hx
    exact erases_after fun _ => erases_pure (congrArg₂ (Expr.caseOf id) hscrutinee harms)

end Forms

end InferM

section Expressions

open InferM

variable (session : Session)

mutual

theorem erases_inferExpr : ∀ (e : Expr) (env : Env), Erases (inferExpr session env e) TypedExpr.erase e
  | .lit _ l, _ => (erases_lit l).noted
  | .var _ name, _ => (erases_variableUse name).noted
  | .lambda _ params body, _ => (erases_function params (erases_inferExpr body)).noted
  | .app _ func args, env => (erases_application (erases_inferExpr func env) (erases_inferExprs args _ env)).noted
  | .letIn _ name value body, env => (erases_letIn name (erases_inferExpr value env) (erases_inferExpr body)).noted
  | .letRec _ bindings body, _ =>
      (erases_letRec (fun env ts => erases_inferValues bindings ts env) (erases_inferExpr body)).noted
  | .cond _ c t e, env => (erases_cond (erases_inferExpr c env) (erases_inferExpr t env) (erases_inferExpr e env)).noted
  | .binary _ op l r, env => (erases_binary op (erases_inferExpr l env) (erases_inferExpr r env)).noted
  | .unary _ op e, env => (erases_unary op (erases_inferExpr e env)).noted
  | .record _ fs, env => (erases_record (erases_inferFields fs _ _ env)).noted
  | .field _ e name, env => (erases_field name (erases_inferExpr e env)).noted
  | .update _ e fs, env => (erases_update (erases_inferExpr e env) fun _ => erases_inferFields fs _ _ env).noted
  | .list _ es, env => (erases_list fun _ => erases_inferExprs es _ env).noted
  | .tuple _ es, env => (erases_tuple (erases_inferExprs es _ env)).noted
  | .caseOf _ e arms, env => (erases_caseOf (erases_inferExpr e env) fun t result => erases_inferArms arms t result 0 env).noted

theorem erases_inferExprs : ∀ (es : List Expr) (after : TypedExpr → InferM Unit) (env : Env),
    Erases (inferExprs session env after es) TypedExpr.eraseAll es
  | [], _, _ => erases_pure rfl
  | e :: es, after, env => (erases_inferExpr e env).bind fun _ h => erases_after fun _ =>
      (erases_inferExprs es after env).bind fun _ h' => erases_pure (congrArg₂ List.cons h h')

theorem erases_inferFields : ∀ (fs : List (String × Expr)) (after : List String → String → TypedExpr → InferM Unit)
    (earlier : List String) (env : Env), Erases (inferFields session env after earlier fs) TypedExpr.eraseFields fs
  | [], _, _, _ => erases_pure rfl
  | (name, e) :: fs, after, earlier, env => ((erases_inferExpr e env).within _).bind fun _ h => erases_after fun _ =>
      (erases_inferFields fs after (name :: earlier) env).bind fun _ h' =>
        erases_pure (congrArg₂ List.cons (congrArg (Prod.mk name) h) h')

theorem erases_inferValues : ∀ (bs : List Binding) (ts : List Ty) (env : Env),
    Erases (inferValues session env ts bs) (List.map TypedExpr.erase) (bs.map Prod.snd)
  | [], _, _ => erases_pure rfl
  | (_, e) :: bs, ts, env => (erases_inferExpr e env).bind fun _ h => erases_after fun _ =>
      (erases_inferValues bs ts.tail env).bind fun _ h' => erases_pure (congrArg₂ List.cons h h')

theorem erases_inferArms : ∀ (arms : List (Pattern × Expr)) (scrutinee result : Ty) (index : Nat) (env : Env),
    Erases (inferArms session env scrutinee result index arms) TypedExpr.eraseArms arms
  | [], _, _, _, _ => erases_pure rfl
  | (p, e) :: arms, scrutinee, result, index, env => (erases_arm index scrutinee result p (erases_inferExpr e)).bind fun _ h =>
      (erases_inferArms arms scrutinee result (index + 1) env).bind fun _ h' => erases_pure (congrArg₂ List.cons h h')

end

end Expressions

end RowTyping
