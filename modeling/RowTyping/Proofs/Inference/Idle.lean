import RowTyping.Checker
import RowTyping.Proofs.Inference.Steps

namespace RowTyping

inductive Context.Plain : Context → Context → Prop
  | log (c : Context) (e : Event) : Plain c (c.log e)
  | note (c : Context) (node : NodeId) (t : Ty) (rule : InferRule) : Plain c (c.note node t rule)
  | report (c : Context) (node : NodeId) {d : Diagnostic} (h : d.category ≠ .undefinedName) : Plain c (c.report node d)
  | freshType (c : Context) : Plain c (InferM.freshTypeVar.run c).2
  | freshRow (c : Context) : Plain c (InferM.freshRow.run c).2
  | addEquation (c : Context) (node : NodeId) (reason : Reason) (g : Goal) : Plain c (c.addEquation node reason g)
  | flush (c : Context) : Plain c c.flush
  | literal (c : Context) (className : String) (t : Ty) (node : NodeId) : Plain c (c.addClass className t node .literal)

theorem Context.Plain.idle {c c' : Context} (h : Plain c c') : Idle c c' := by
  cases h with
  | log e => exact .log c e
  | note node t rule => exact .note c node t rule
  | report node _ => exact .report c node _
  | freshType => exact .freshType c
  | freshRow => exact .freshRow c
  | addEquation node reason g => exact .addEquation c node reason g
  | flush => exact .flush c
  | literal className t node => exact .literal c className t node

theorem Effects.category_elaborate {names : List String} {d : Diagnostic} (h : elaborate names = .error d) :
    d.category = .unknownEffect := by
  rw [elaborate] at h
  split at h
  · cases h
    rfl
  · cases h

theorem UnifyError.category_diagnostic_ne (e : UnifyError) (expected actual : String) (p : Provenance) :
    (e.diagnostic expected actual p).category ≠ .undefinedName := by
  change (e.unplaced p.reason).category ≠ .undefinedName
  cases e with
  | rows kind missing extra =>
      rw [unplaced, rowsDiagnostic]
      split <;> nofun
  | _ => nofun

namespace InferM

open Relation

variable {α β : Type}

structure Idles (m : InferM α) : Prop where
  steps : ∀ c, ReflTransGen Context.Plain c (m.run c).2

theorem idles_pure (a : α) : Idles (pure a) :=
  ⟨fun _ => .refl⟩

theorem Idles.bind {m : InferM α} {f : α → InferM β} (hm : Idles m) (hf : ∀ a, Idles (f a)) : Idles (m >>= f) :=
  ⟨fun c => (hm.steps c).trans ((hf _).steps _)⟩

theorem idles_get {f : Context → InferM α} (hf : ∀ c, Idles (f c)) : Idles (get >>= f) :=
  ⟨fun c => (hf c).steps c⟩

theorem idles_step {m : InferM α} (h : ∀ c, Context.Plain c (m.run c).2) : Idles m :=
  ⟨fun c => .single (h c)⟩

theorem idles_modify {g : Context → Context} (h : ∀ c, Context.Plain c (g c)) : Idles (modify g) :=
  idles_step h

theorem idles_ite {p : Prop} [Decidable p] {m m' : InferM α} (h : p → Idles m) (h' : ¬ p → Idles m') : Idles (if p then m else m') := by
  split
  next hp => exact h hp
  next hp => exact h' hp

theorem idles_forM {f : α → InferM Unit} (h : ∀ a, Idles (f a)) (as : List α) : Idles (as.forM f) := by
  induction as with
  | nil => exact idles_pure ()
  | cons a as ih => exact (h a).bind fun _ => ih

theorem idles_mapM {f : α → InferM β} (h : ∀ a, Idles (f a)) (as : List α) : Idles (as.mapM f) := by
  induction as with
  | nil => exact idles_pure []
  | cons a as ih =>
      rw [List.mapM_cons]
      refine (h a).bind fun _ => ?_
      exact ih.bind fun _ => idles_pure _

theorem Idles.stepwise {r : Registry} {m : InferM α} (hm : Idles m) : Stepwise r m := by
  refine ⟨fun c => ⟨[], ?_, List.forall_mem_nil _⟩⟩
  have hsteps := hm.steps c
  generalize (m.run c).2 = c' at hsteps
  induction hsteps with
  | refl => exact .refl c
  | tail _ hstep ih => exact ih.quiet (.idle hstep.idle)

theorem idles_freshTypeVar : Idles freshTypeVar :=
  idles_step fun c => .freshType c

theorem idles_freshType : Idles freshType :=
  idles_freshTypeVar.bind fun _ => idles_pure _

theorem idles_freshRow : Idles freshRow :=
  idles_step fun c => .freshRow c

theorem idles_applied (t : Ty) : Idles (applied t) :=
  idles_get fun _ => idles_pure _

theorem idles_flush : Idles flush :=
  idles_step fun c => .flush c

theorem idles_equate (node : NodeId) (reason : Reason) (expected actual : Ty) : Idles (equate node reason expected actual) :=
  idles_step fun c => .addEquation c node reason _

theorem idles_equateRows (node : NodeId) (reason : Reason) (expected actual : Row) : Idles (equateRows node reason expected actual) :=
  idles_step fun c => .addEquation c node reason _

theorem idles_report (node : NodeId) {d : Diagnostic} (h : d.category ≠ .undefinedName) : Idles (report node d) :=
  idles_step fun c => .report c node h

theorem idles_note (node : NodeId) (t : Ty) (rule : InferRule) : Idles (note node t rule) :=
  idles_step fun c => .note c node t rule

variable {session : Session} {env : Env} {id : NodeId}

section Boundaries

theorem idles_freshTypeRenaming (vs : List TypeVar) : Idles (freshTypeRenaming vs) := by
  induction vs with
  | nil => exact idles_pure _
  | cons v vs ih =>
      refine idles_freshTypeVar.bind fun _ => ?_
      exact ih.bind fun _ => idles_pure _

theorem idles_freshRowRenaming (rs : List RowVarId) : Idles (freshRowRenaming rs) := by
  induction rs with
  | nil => exact idles_pure _
  | cons v vs ih =>
      refine idles_freshRow.bind fun _ => ?_
      exact ih.bind fun _ => idles_pure _

theorem idles_closeResultEffects (node : NodeId) (ts : List Ty) (envRowVars : List RowVarId) :
    Idles (closeResultEffects node ts envRowVars) := by
  refine idles_get fun c => ?_
  refine idles_ite (fun _ => idles_pure _) fun _ => ?_
  exact (idles_forM (fun _ => idles_equateRows ..) _).bind fun _ => idles_flush

theorem idles_reportUnsolved (seen : List (String × String)) (ks : List ClassConstraint) : Idles (reportUnsolved seen ks) := by
  induction ks generalizing seen with
  | nil => exact idles_pure _
  | cons k ks ih =>
      rw [reportUnsolved]
      refine idles_ite (fun _ => ih seen) fun _ => ?_
      exact (idles_report _ Category.noConfusion).bind fun _ => ih _

theorem idles_schemeOf (node : NodeId) (envTypeVars : List TypeVarId) (envRowVars : List RowVarId) (pending : List ClassConstraint)
    (t : Ty) : Idles (schemeOf node envTypeVars envRowVars pending t) := by
  refine (idles_modify fun c => .log c _).bind fun _ => ?_
  exact (idles_note ..).bind fun _ => idles_pure _

end Boundaries

section EffectRules

theorem idles_joinEffects (node : NodeId) (rows : List Effects) : Idles (joinEffects node rows) := by
  refine idles_get fun c => ?_
  dsimp only
  split
  · refine (idles_forM (fun _ => idles_equateRows ..) _).bind fun _ => ?_
    refine idles_flush.bind fun _ => ?_
    exact idles_get fun _ => idles_pure _
  · exact idles_get fun _ => idles_pure _

theorem idles_openLatentEffects (t : Ty) : Idles (openLatentEffects t) := by
  cases t with
  | fn =>
      refine idles_ite (fun _ => idles_pure _) fun _ => ?_
      exact idles_freshRow.bind fun _ => idles_pure _
  | _ => exact idles_pure _

theorem idles_checkSignature (node : NodeId) (body declared : Effects) : Idles (checkSignature node body declared) := by
  refine idles_flush.bind fun _ => idles_get fun c => idles_ite (fun _ => ?_) fun _ => idles_ite (fun _ => ?_) fun _ => ?_
  · exact (idles_equateRows ..).bind fun _ => idles_flush
  · exact idles_report _ (UnifyError.category_diagnostic_ne _ _ _ _)
  · exact idles_pure _

theorem idles_checkCaptures (lambda : Expr) : Idles (checkCaptures session env lambda) := by
  refine idles_ite (fun _ => idles_pure _) fun _ => ?_
  refine idles_flush.bind fun _ => idles_forM (fun name => ?_) _
  split
  · exact idles_pure _
  · refine (idles_applied _).bind fun t => ?_
    split
    · exact idles_pure _
    · exact idles_report _ Category.noConfusion

theorem idles_latentEffects (node : NodeId) (body : Effects) : Idles (latentEffects session node body) := by
  rw [latentEffects]
  cases session.signatures.find? node with
  | none => exact idles_pure _
  | some names =>
      dsimp only
      cases helaborate : Effects.elaborate names with
      | ok declared => exact (idles_checkSignature ..).bind fun _ => idles_pure _
      | error d =>
          have hcategory : d.category ≠ .undefinedName := Effects.category_elaborate helaborate ▸ Category.noConfusion
          exact (idles_report _ hcategory).bind fun _ => idles_pure _

end EffectRules

section Patterns

theorem idles_literalType (node : NodeId) (l : Literal) : Idles (literalType node l) := by
  cases l with
  | int | float =>
      refine idles_freshType.bind fun t => ?_
      exact (idles_modify fun c => .literal c _ t node).bind fun _ => idles_pure t
  | _ => exact idles_pure _

theorem idles_bindName (node : NodeId) (bound : BoundNames) (name : String) : Idles (bindName node bound name) := by
  refine idles_freshType.bind fun _ => ?_
  split
  · exact (idles_equate ..).bind fun _ => idles_pure _
  · exact idles_pure _

theorem idles_recordPatternType (fields : List (String × TypedPattern)) (isOpen : Bool) :
    Idles (recordPatternType session fields isOpen) :=
  idles_ite (fun _ => idles_freshRow.bind fun _ => idles_pure _) fun _ => idles_pure _

mutual

theorem idles_inferPattern (bound : BoundNames) (p : Pattern) : Idles (inferPattern session bound p) := by
  cases p with
  | wildcard => exact idles_freshType.bind fun _ => idles_pure _
  | var => exact idles_bindName ..
  | lit => exact (idles_literalType ..).bind fun _ => idles_pure _
  | tuple id ps => exact (idles_inferPatterns bound (fun _ => idles_pure ()) ps).bind fun _ => idles_pure _
  | list id ps rest =>
      refine idles_freshType.bind fun _ => ?_
      refine (idles_inferPatterns bound (fun _ => idles_equate ..) ps).bind fun _ => ?_
      exact (idles_inferPatternRest _ (fun _ => idles_equate ..) rest).bind fun _ => idles_pure _
  | record id fs =>
      refine (idles_inferPatternFields bound fs).bind fun _ => ?_
      exact (idles_recordPatternType ..).bind fun _ => idles_pure _
termination_by structural p

theorem idles_inferPatterns (bound : BoundNames) {after : TypedPattern → InferM Unit} (hafter : ∀ p, Idles (after p))
    (ps : List Pattern) : Idles (inferPatterns session after bound ps) := by
  cases ps with
  | nil => exact idles_pure _
  | cons p ps =>
      refine (idles_inferPattern bound p).bind fun _ => ?_
      refine (hafter _).bind fun _ => ?_
      exact (idles_inferPatterns _ hafter ps).bind fun _ => idles_pure _
termination_by structural ps

theorem idles_inferPatternRest (bound : BoundNames) {after : TypedPattern → InferM Unit} (hafter : ∀ p, Idles (after p))
    (rest : Option Pattern) : Idles (inferPatternRest session after bound rest) := by
  cases rest with
  | none => exact idles_pure _
  | some p =>
      refine (idles_inferPattern bound p).bind fun _ => ?_
      exact (hafter _).bind fun _ => idles_pure _
termination_by structural rest

theorem idles_inferPatternFields (bound : BoundNames) (fs : List (String × Pattern)) :
    Idles (inferPatternFields session bound fs) := by
  cases fs with
  | nil => exact idles_pure _
  | cons f fs =>
      refine (idles_inferPattern bound f.2).bind fun _ => ?_
      exact (idles_inferPatternFields _ fs).bind fun _ => idles_pure _
termination_by structural fs

end

end Patterns

section Forms

theorem idles_passArguments (index : Nat) (params : List Ty) (args : List TypedExpr) : Idles (passArguments index params args) := by
  induction params generalizing index args with
  | nil => exact idles_pure _
  | cons param params ih =>
      cases args with
      | nil => exact idles_pure _
      | cons arg args =>
          refine (idles_applied _).bind fun _ => ?_
          refine (idles_openLatentEffects _).bind fun _ => ?_
          refine (idles_equate ..).bind fun _ => ?_
          exact ih _ _

theorem idles_callee (funcId : NodeId) (args : List TypedExpr) (func : Ty) : Idles (callee id funcId args func) := by
  have hother : Idles do
      let result ← freshType
      let latent := Effects.opened [] (← freshRow)
      equate funcId .application (.fn (args.map TypedExpr.ty) latent result) func
      return (result, latent) := by
    refine idles_freshType.bind fun _ => ?_
    refine idles_freshRow.bind fun _ => ?_
    exact (idles_equate ..).bind fun _ => idles_pure _
  cases func with
  | fn params latent result =>
      refine idles_ite (fun _ => ?_) fun _ => ?_
      · exact (idles_passArguments ..).bind fun _ => idles_pure _
      · refine (idles_report _ Category.noConfusion).bind fun _ => ?_
        exact idles_freshType.bind fun _ => idles_pure _
  | _ => exact hother

theorem idles_numericClass (t : Ty) : Idles (numericClass t) :=
  idles_get fun _ => idles_pure _

theorem idles_concatenation (left right : Ty) : Idles (concatenation id left right) := by
  refine idles_flush.bind fun _ => ?_
  refine (idles_applied _).bind fun l => ?_
  refine (idles_applied _).bind fun r' => ?_
  have hequate (x : ConcatKind × Ty) : Idles do
      equate id (.binaryOp .concat) x.2 l
      equate id (.binaryOp .concat) x.2 r'
      return (x.1, x.2) := by
    refine (idles_equate ..).bind fun _ => ?_
    exact (idles_equate ..).bind fun _ => idles_pure _
  refine idles_ite (fun _ => (idles_pure _).bind hequate) fun _ => ?_
  split
  · exact (idles_pure _).bind hequate
  · exact idles_freshType.bind fun _ => (idles_pure _).bind hequate
  · refine (idles_report _ Category.noConfusion).bind fun _ => ?_
    exact idles_freshType.bind fun _ => (idles_pure _).bind hequate

theorem idles_duplicateField (earlier : List String) (name : String) (value : TypedExpr) :
    Idles (duplicateField earlier name value) :=
  idles_ite (fun _ => idles_report _ Category.noConfusion) fun _ => idles_pure _

theorem idles_missingField (t : Ty) (name : String) : Idles (missingField id t name) :=
  (idles_report _ Category.noConfusion).bind fun _ => idles_freshType

theorem idles_fieldType (t : Ty) (name : String) : Idles (fieldType id t name) := by
  refine idles_flush.bind fun _ => ?_
  refine (idles_applied _).bind fun _ => ?_
  split
  · split
    · exact idles_pure _
    · exact idles_missingField ..
  · refine idles_freshType.bind fun _ => ?_
    refine idles_freshRow.bind fun _ => ?_
    exact (idles_equate ..).bind fun _ => idles_pure _

theorem idles_replaceField (base : Ty) (fields? : Option (OrderedMap String Ty)) (name : String) (value : TypedExpr) :
    Idles (replaceField base fields? name value) := by
  cases fields? with
  | none => exact idles_pure _
  | some fields =>
      rw [replaceField]
      split
      · exact idles_equate ..
      · exact idles_report _ Category.noConfusion

end Forms

section Declarations

theorem idles_declare (failed : Bool) (name : String) (scheme : Scheme) :
    Idles (Checker.declare failed name scheme) := by
  have hdeclared (scheme : Scheme) : Idles do
      modify (Context.log (.declared name scheme))
      return scheme :=
    (idles_modify fun c => .log c _).bind fun _ => idles_pure _
  refine idles_ite (fun _ => ?_) fun _ => ?_
  · exact (idles_freshTypeVar.bind fun _ => idles_pure _).bind hdeclared
  · exact (idles_pure _).bind hdeclared

theorem idles_declareAll (failed : Bool) (bs : List TypedBinding) : Idles (Checker.declareAll failed bs) := by
  induction bs with
  | nil => exact idles_pure _
  | cons b bs ih =>
      refine (idles_declare ..).bind fun _ => ?_
      exact ih.bind fun _ => idles_pure _

end Declarations

end InferM

end RowTyping
