import RowTyping.Infer.Expr
import RowTyping.Provider
import RowTyping.Proofs.Inference.Ensures
import RowTyping.Proofs.Inference.Flush
import RowTyping.Proofs.Inference.Scopes
import RowTyping.Proofs.Quantification

namespace RowTyping

theorem attaches_iff {quantified : List TypeVarId} {k : ClassConstraint} :
    attaches quantified k = true ↔ k.ty.typeVars ≠ [] ∧ ∀ v ∈ k.ty.typeVars, v ∈ quantified := by
  simp [attaches]

theorem mem_attached {quantified : List TypeVarId} {pending : List ClassConstraint} {p : Predicate} :
    p ∈ attached quantified pending ↔ ∃ k ∈ pending, attaches quantified k = true ∧ p = ⟨k.className, k.ty⟩ := by
  rw [attached, List.mem_eraseDups, List.mem_map]
  constructor
  · rintro ⟨k, hk, rfl⟩
    exact ⟨k, (List.mem_filter.mp hk).1, (List.mem_filter.mp hk).2, rfl⟩
  · rintro ⟨k, hk, hattaches, rfl⟩
    exact ⟨k, List.mem_filter.mpr ⟨hk, hattaches⟩, rfl⟩

theorem mem_attached_of_pending {quantified : List TypeVarId} {pending : List ClassConstraint} {k : ClassConstraint}
    (hk : k ∈ pending) : ⟨k.className, k.ty⟩ ∈ attached quantified pending ↔ attaches quantified k = true := by
  rw [mem_attached]
  constructor
  · rintro ⟨k', -, hattaches, heq⟩
    have hty : k.ty = k'.ty := congrArg Predicate.ty heq
    rwa [attaches, hty]
  · exact fun h => ⟨k, hk, h, rfl⟩

namespace Context

variable {c : Context}

theorem errors_report (node : NodeId) (d : Diagnostic) :
    ∃ d', (c.report node d).errors = c.errors ++ [d'] ∧ d'.category = d.category ∧ d'.message = d.message := by
  by_cases h : d.path.isEmpty = true
  · exact ⟨d.located c.path (some node), by rw [report, if_pos h]; rfl, rfl, rfl⟩
  · exact ⟨d, by rw [report, if_neg h]; rfl, rfl, rfl⟩

theorem classes_applyDefaults (defaults : Substitution) :
    ∃ f, (c.applyDefaults defaults).classes = c.classes.map (ClassConstraint.mapTy f) := by
  rw [applyDefaults_eq]
  split
  · refine ⟨fun t => t, ?_⟩
    have hid : ClassConstraint.mapTy (fun t => t) = fun k => k := rfl
    simp [hid, Scopes.map]
  · exact ⟨_, rfl⟩

end Context

namespace InferM

variable {c : Context}

theorem closeResultEffects_classes (node : NodeId) (ts : List Ty) (envRowVars : List RowVarId) :
    Ensures (closeResultEffects node ts envRowVars) c fun _ c' => c'.classes = c.classes := by
  apply ensures_get
  refine ensures_ite (fun _ => rfl) fun _ => ?_
  refine .bind (ensures_forM (P := fun c' => c'.classes = c.classes) rfl ?_) fun _ c' h => Context.classes_flush.trans h
  exact fun _ _ _ h => h

theorem applyOutcome_classes (node : NodeId) (monotype : Ty) (outcome : DefaultingOutcome) :
    Ensures (applyOutcome node monotype outcome) c fun _ c' => ∃ f, c'.classes = c.classes.map (ClassConstraint.mapTy f) := by
  refine ensures_modify (.bind (ensures_forM (P := fun c' => c'.classes = c.classes) rfl ?_) fun _ c' h => ?_)
  · exact fun _ _ _ h => h
  refine ensures_ite (fun _ => ?_) fun _ => ?_
  · obtain ⟨f, hf⟩ := Context.classes_applyDefaults (c := c'.note node monotype (.default outcome.subst.types.values)) outcome.subst
    exact ⟨f, h ▸ hf⟩
  · obtain ⟨f, hf⟩ := Context.classes_applyDefaults (c := c') outcome.subst
    exact ⟨f, h ▸ hf⟩

theorem resolveGround_pending (r : Registry) (rejected : List TypeVarId) (reported : List (String × String))
    (ks : List ClassConstraint) :
    Ensures (resolveGround r rejected reported ks) c fun pending c' =>
      pending = ks.filter (fun k => !k.ty.typeVars.any rejected.contains && !k.isGround) ∧ c'.classes = c.classes := by
  induction ks generalizing reported c with
  | nil => exact ⟨rfl, rfl⟩
  | cons k ks ih =>
      rw [resolveGround, List.filter_cons]
      refine ensures_ite (fun hrejected => ?_) fun hrejected => ensures_ite (fun hground => ?_) fun hground => ?_
      · simpa [hrejected] using ih reported
      · refine .bind (ih reported) fun pending c' h => ?_
        have hkept : (!k.ty.typeVars.any rejected.contains && !k.isGround) = true := by simp [hrejected, hground]
        rw [if_pos hkept]
        exact ⟨congrArg (k :: ·) h.1, h.2⟩
      · have hgone : ¬ (!k.ty.typeVars.any rejected.contains && !k.isGround) = true := by simp [hground]
        rw [if_neg hgone]
        split
        · exact ensures_modify (ensures_modify (ensures_ite (fun _ => ih reported) fun _ => ih reported))
        · exact ensures_ite (fun _ => ih reported) fun _ => ensures_modify (ih _)
        · exact ensures_modify (ih reported)

theorem mapM_schemeOf (node : NodeId) (envTypeVars : List TypeVarId) (envRowVars : List RowVarId)
    (pending : List ClassConstraint) (ts : List Ty) :
    Ensures (ts.mapM (schemeOf node envTypeVars envRowVars pending)) c fun schemes c' =>
      schemes = ts.map (fun t => t.generalize (attached (OrderedSet.diff t.typeVars envTypeVars) pending) envTypeVars envRowVars)
        ∧ c'.classes = c.classes ∧ c'.errors = c.errors := by
  induction ts generalizing c with
  | nil => exact ⟨rfl, rfl, rfl⟩
  | cons t ts ih =>
      rw [List.mapM_cons]
      refine .bind (Q := fun scheme c' => scheme = t.generalize (attached (OrderedSet.diff t.typeVars envTypeVars) pending)
        envTypeVars envRowVars ∧ c'.classes = c.classes ∧ c'.errors = c.errors) ⟨rfl, rfl, rfl⟩ fun scheme c' h => ?_
      refine .bind ih fun schemes c'' h' => ?_
      exact ensures_pure ⟨by rw [h.1, h'.1, List.map_cons], h'.2.1.trans h.2.1, h'.2.2.trans h.2.2⟩

def unsolved (k : ClassConstraint) : Diagnostic :=
  ((Diagnostic.error .unsolvedConstraint ("unsolved constraint " ++ k.className ++ " " ++ k.ty.display)).located k.path
    (some k.node)).withHelp (classRemedy k.className)

def Blames (d : Diagnostic) (k : ClassConstraint) : Prop :=
  d.category = (unsolved k).category ∧ d.message = (unsolved k).message

theorem reportUnsolved_errors (seen : List (String × String)) (ks : List ClassConstraint) :
    Ensures (reportUnsolved seen ks) c fun _ c' => c'.classes = c.classes ∧ ∃ ds, c'.errors = c.errors ++ ds ∧
      (∀ d ∈ ds, ∃ k ∈ ks, Blames d k) ∧
        ∀ k ∈ ks, (k.className, k.ty.display) ∈ seen ∨ ∃ d ∈ ds, Blames d k := by
  induction ks generalizing seen c with
  | nil =>
      rw [reportUnsolved]
      exact ensures_pure ⟨rfl, [], (List.append_nil _).symm, List.forall_mem_nil _, List.forall_mem_nil _⟩
  | cons k ks ih =>
      rw [reportUnsolved]
      refine ensures_ite (fun hseen => ?_) fun hseen => ?_
      · refine (ih seen).mono fun _ c' h => ⟨h.1, ?_⟩
        obtain ⟨ds, hds, hnew, hall⟩ := h.2
        refine ⟨ds, hds, fun d hd => ?_, List.forall_mem_cons.mpr ⟨.inl (List.contains_iff_mem.mp hseen), hall⟩⟩
        obtain ⟨k', hk', hblames⟩ := hnew d hd
        exact ⟨k', List.mem_cons_of_mem k hk', hblames⟩
      · apply ensures_modify
        refine (ih _).mono fun _ c' h => ⟨h.1, ?_⟩
        obtain ⟨ds, hds, hnew, hall⟩ := h.2
        obtain ⟨d, hd, hblames⟩ := c.errors_report k.node (unsolved k)
        have herrors : c'.errors = (c.report k.node (unsolved k)).errors ++ ds := hds
        refine ⟨d :: ds, by rw [herrors, hd, List.append_assoc, List.singleton_append],
          List.forall_mem_cons.mpr ⟨⟨k, List.mem_cons_self, hblames⟩, fun d' hd' => ?_⟩,
          List.forall_mem_cons.mpr ⟨.inr ⟨d, List.mem_cons_self, hblames⟩, fun k' hk' => ?_⟩⟩
        · obtain ⟨k', hk', hblames'⟩ := hnew d' hd'
          exact ⟨k', List.mem_cons_of_mem k hk', hblames'⟩
        · rcases hall k' hk' with hseen' | ⟨d', hd', hblames'⟩
          · rcases List.mem_cons.mp hseen' with heq | hseen'
            · refine .inr ⟨d, List.mem_cons_self, hblames.1, hblames.2.trans ?_⟩
              obtain ⟨hname, hshown⟩ := Prod.mk.inj heq
              simp only [unsolved, hname, hshown]
              rfl
            · exact .inl hseen'
          · exact .inr ⟨d', List.mem_cons_of_mem d hd', hblames'⟩

structure Closing where
  envTypeVars : List TypeVarId
  envRowVars : List RowVarId
  types : List Ty
  rejected : List TypeVarId
  constraints : List ClassConstraint
  pending : List ClassConstraint

def closing (session : Session) (env : Env) (node : NodeId) (ts : List Ty) (level : BindingLevel) (generalizable : Bool) :
    InferM Closing := do
  solve
  let c ← get
  let constraints := c.classes.innermost
  let envTypeVars := env.freeTypeVars c.subst
  let envRowVars := env.freeRowVars c.subst
  closeResultEffects node ts envRowVars
  let monotype := Ty.tuple (ts.map (← get).apply)
  let mode := if level = .topLevel ∧ !generalizable then .topLevel else .boundary
  let outcome := defaultConstraints monotype constraints envTypeVars session.registry mode
  applyOutcome node monotype outcome
  let constraints ← takeClassScope
  let types := ts.map (← get).apply
  let pending ← resolveGround session.registry outcome.rejected [] constraints
  return ⟨envTypeVars, envRowVars, types, outcome.rejected, constraints, pending⟩

def dispose (level : BindingLevel) (ks : List ClassConstraint) : InferM Unit :=
  match level with
  | .nested => modify (Context.deferClasses ks)
  | .topLevel => reportUnsolved [] ks

def conclude (node : NodeId) (level : BindingLevel) (generalizable : Bool) (cl : Closing) : InferM (List Scheme) := do
  let schemes ←
    if generalizable then cl.types.mapM (schemeOf node cl.envTypeVars cl.envRowVars cl.pending)
    else pure (cl.types.map Scheme.mono)
  let leftovers := cl.pending.filter fun k =>
    !(generalizable && cl.types.any fun t => attaches (OrderedSet.diff t.typeVars cl.envTypeVars) k)
  dispose level leftovers
  return schemes

theorem closeBoundary_eq (session : Session) (env : Env) (node : NodeId) (ts : List Ty) (level : BindingLevel)
    (generalizable : Bool) : closeBoundary session env node ts level generalizable = (do
      conclude node level generalizable (← closing session env node ts level generalizable)) := by
  cases level <;> simp only [closeBoundary, closing, conclude, dispose, bind_assoc, pure_bind]

structure Gathers (c : Context) (cl : Closing) (c' : Context) : Prop where
  scope : ∃ f, cl.constraints = c.classes.takeScope.1.map (ClassConstraint.mapTy f) ∧
    c'.classes = c.classes.takeScope.2.map (ClassConstraint.mapTy f)
  pending : cl.pending = cl.constraints.filter fun k => !k.ty.typeVars.any cl.rejected.contains && !k.isGround

theorem closing_gathers (session : Session) (env : Env) (node : NodeId) (ts : List Ty) (level : BindingLevel)
    (generalizable : Bool) : Ensures (closing session env node ts level generalizable) c (Gathers c) := by
  refine ensures_solve (ensures_get (.bind (closeResultEffects_classes ..) fun _ c₁ h₁ => ensures_get ?_))
  refine .bind (applyOutcome_classes ..) fun _ c₂ h₂ => ?_
  obtain ⟨f, h₂⟩ := h₂
  refine .bind (Q := fun ks c' => ks = c₂.classes.takeScope.1 ∧ c'.classes = c₂.classes.takeScope.2) ⟨rfl, rfl⟩ fun constraints c₃ h₃ => ?_
  apply ensures_get
  refine .bind (resolveGround_pending ..) fun pending c₄ h₄ => ensures_pure ⟨?_, h₄.1⟩
  have hclasses : c₂.classes = c.classes.map (ClassConstraint.mapTy (f ∘ c.flush.apply)) := by
    rw [h₂, h₁, Context.classes_solve, Scopes.map_map]
    rfl
  rw [hclasses, Scopes.takeScope_map] at h₃
  exact ⟨_, h₃.1, h₄.2.trans h₃.2⟩

def Quantifies (scheme : Scheme) (k : ClassConstraint) : Prop :=
  k.ty.typeVars ≠ [] ∧ ∀ v ∈ k.ty.typeVars, v ∈ scheme.typeVars.map TypeVar.id

instance (scheme : Scheme) (k : ClassConstraint) : Decidable (Quantifies scheme k) :=
  inferInstanceAs (Decidable (_ ∧ _))

def leftovers (cl : Closing) (schemes : List Scheme) : List ClassConstraint :=
  cl.pending.filter fun k => ∀ scheme ∈ schemes, ¬ Quantifies scheme k

structure Disposes (level : BindingLevel) (ks : List ClassConstraint) (c c' : Context) : Prop where
  deferred : level = .nested → c'.classes = c.classes.append ks ∧ c'.errors = c.errors
  reported : level = .topLevel → c'.classes = c.classes ∧ ∃ ds, c'.errors = c.errors ++ ds ∧
    (∀ d ∈ ds, ∃ k ∈ ks, Blames d k) ∧ ∀ k ∈ ks, ∃ d ∈ ds, Blames d k

theorem dispose_disposes (level : BindingLevel) (ks : List ClassConstraint) :
    Ensures (dispose level ks) c fun _ c' => Disposes level ks c c' := by
  cases level with
  | nested => exact ⟨fun _ => ⟨rfl, rfl⟩, nofun⟩
  | topLevel =>
      refine (reportUnsolved_errors [] ks).mono fun _ c' h => ⟨nofun, fun _ => ⟨h.1, ?_⟩⟩
      obtain ⟨ds, hds, hnew, hall⟩ := h.2
      exact ⟨ds, hds, hnew, fun k hk => (hall k hk).resolve_left List.not_mem_nil⟩

structure Shares (level : BindingLevel) (cl : Closing) (c : Context) (schemes : List Scheme) (c' : Context) : Prop where
  predicates : ∀ scheme ∈ schemes, ∀ k ∈ cl.pending, ⟨k.className, k.ty⟩ ∈ scheme.predicates ↔ Quantifies scheme k
  pending : ∀ scheme ∈ schemes, ∀ p ∈ scheme.predicates, ∃ k ∈ cl.pending, p = ⟨k.className, k.ty⟩
  leftovers : Disposes level (leftovers cl schemes) c c'

theorem quantifies_generalize {t : Ty} {ps : List Predicate} {envTypeVars : List TypeVarId} {envRowVars : List RowVarId}
    {k : ClassConstraint} :
    Quantifies (t.generalize ps envTypeVars envRowVars) k ↔ attaches (OrderedSet.diff t.typeVars envTypeVars) k = true := by
  simp only [Quantifies, attaches_iff, Ty.mem_typeVars_generalize]

theorem conclude_shares (node : NodeId) (level : BindingLevel) (cl : Closing) :
    Ensures (conclude node level true cl) c (Shares level cl c) := by
  refine .bind (mapM_schemeOf ..) fun schemes c₁ h => ?_
  refine .bind (dispose_disposes ..) fun _ c₂ h₂ => ensures_pure ?_
  obtain ⟨hschemes, hclasses, herrors⟩ := h
  have hleft : (cl.pending.filter fun k => !(true && cl.types.any fun t => attaches (OrderedSet.diff t.typeVars cl.envTypeVars) k))
      = leftovers cl schemes := by
    refine List.filter_congr fun k _ => ?_
    simp only [hschemes, List.forall_mem_map, quantifies_generalize]
    rw [Bool.eq_iff_iff]
    simp
  rw [hleft] at h₂
  refine ⟨?_, ?_, ⟨fun h => ?_, fun h => ?_⟩⟩
  · rw [hschemes, List.forall_mem_map]
    intro t _ k hk
    rw [quantifies_generalize]
    exact mem_attached_of_pending hk
  · rw [hschemes, List.forall_mem_map]
    intro t _ p hp
    obtain ⟨k, hk, -, heq⟩ := mem_attached.mp hp
    exact ⟨k, hk, heq⟩
  · rw [← hclasses, ← herrors]
    exact h₂.deferred h
  · rw [← hclasses, ← herrors]
    exact h₂.reported h

theorem closeBoundary_shares (session : Session) (env : Env) (node : NodeId) (ts : List Ty) (level : BindingLevel)
    (c : Context) :
    Ensures (closing session env node ts level true) c fun cl c₁ => Gathers c cl c₁ ∧
      Ensures (closeBoundary session env node ts level true) c (Shares level cl c₁) := by
  rw [closeBoundary_eq]
  exact (closing_gathers ..).followed fun cl _ => conclude_shares node level cl

theorem inferBinding_defers_quantified :
    let pair (id : NodeId) : Expr := .tuple id [.var (id - 2) "x", .var (id - 1) "y"]
    let value : Expr := .lambda 7 ["x"] (.binary 6 .eq (pair 2) (pair 5))
    let env := Env.empty.nest [("y", .mono (.ofVar 0))]
    let out := (inferBinding ⟨.prelude, .default, []⟩ env value .nested).run (.ofSupply ⟨1, 0⟩)
    out.1.1.predicates = [] ∧ ∃ k ∈ out.2.classes.toList, ∃ v ∈ k.ty.typeVars, v ∈ out.1.1.typeVars.map TypeVar.id := by
  decide +kernel

end InferM

end RowTyping
