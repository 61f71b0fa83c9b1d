import RowTyping.Proofs.Inference.Passage

namespace RowTyping

open TryM

namespace Substitution

variable {s s₁ s' : Substitution} {r : RowVarId} {tail : RowVarId → Prop}

theorem applyRow_closedEffects (s : Substitution) : s.applyRow (.closedEffects []) = .closedEffects [] :=
  applyRow_of_free fun _ hv => by cases hv

theorem applyRow_openEffects (hr : s.lookupRow r = none) : s.applyRow (.openEffects [] r) = .openEffects [] r := by
  refine applyRow_of_free fun v hv => ?_
  rcases Row.mem_vars.mp hv with ⟨_, hf, -⟩ | ⟨q, hq, rfl⟩
  · cases hf
  · cases hq
    exact not_binds_row.mpr hr

theorem applyRow_openEffects_bound (hr : s.lookupRow r = some (.closedEffects [])) :
    s.applyRow (.openEffects [] r) = .closedEffects [] := by
  obtain ⟨n, hn⟩ : ∃ n, s.depth = n + 1 := by
    have hrows : s.rows ≠ [] := fun hnil => by simp [lookupRow, hnil, OrderedMap.find?_nil] at hr
    exact Nat.exists_eq_add_one.mpr (Nat.add_pos_right _ (List.length_pos_iff.mpr hrows))
  have hclosed : s.chaseRow n (.closedEffects []) = .closedEffects [] := (chase_free n).2 _ fun _ hv => by cases hv
  have hassigned : s.assignedRow (s.chaseRow n) r = some (.closedEffects []) :=
    (congrArg (Option.map (s.chaseRow n)) hr).trans (congrArg some hclosed)
  rw [applyRow, hn, chaseRow_succ]
  exact Ty.substRow_bound hassigned

structure Empties (s : Substitution) (tail : RowVarId → Prop) (s' : Substitution) : Prop where
  types : s'.types = s.types
  rows : ∀ r, s'.lookupRow r = s.lookupRow r ∨ tail r ∧ s.lookupRow r = none ∧ s'.lookupRow r = some (.closedEffects [])

theorem Empties.refl (s : Substitution) (tail : RowVarId → Prop) : s.Empties tail s :=
  ⟨rfl, fun _ => .inl rfl⟩

theorem Empties.trans (h : s.Empties tail s₁) (h' : s₁.Empties tail s') : s.Empties tail s' := by
  refine ⟨h'.types.trans h.types, fun r => ?_⟩
  rcases h.rows r, h'.rows r with ⟨hr | ⟨htail, hfree, hr⟩, hr' | ⟨htail', hfree', hr'⟩⟩
  · exact .inl (hr'.trans hr)
  · exact .inr ⟨htail', hr ▸ hfree', hr'⟩
  · exact .inr ⟨htail, hfree, hr'.trans hr⟩
  · rw [hr] at hfree'
    cases hfree'

theorem empties_bindRow (htail : tail r) (hr : s.lookupRow r = none) : s.Empties tail (s.bindRow r (.closedEffects [])) := by
  refine ⟨rfl, fun q => ?_⟩
  rw [lookupRow_bindRow]
  split
  next heq => exact .inr ⟨heq ▸ htail, heq ▸ hr, rfl⟩
  next => exact .inl rfl

def Closable (s : Substitution) (r : RowVarId) : Prop :=
  s.lookupRow r = none ∨ s.lookupRow r = some (.closedEffects [])

theorem Empties.closable (h : s.Empties tail s') (hr : s.Closable r) : s'.Closable r := by
  rcases h.rows r with hsame | ⟨-, -, hclosed⟩
  · rwa [Closable, hsame]
  · exact .inr hclosed

theorem Empties.grows (h : s.Empties tail s') : s'.Extends s := by
  refine ⟨fun v t ht => ?_, fun r row hrow => ?_⟩
  · rwa [lookupType, h.types]
  · rcases h.rows r with hsame | ⟨-, hfree, -⟩
    · exact hsame.trans hrow
    · rw [hrow] at hfree
      cases hfree

structure Widens (s : Substitution) (tail : RowVarId → Prop) (default : Ty → Prop) (s' : Substitution) : Prop where
  grows : s'.Extends s
  boundType : ∀ v t, s'.lookupType v = some t → s.lookupType v = some t ∨ default t
  boundRow : ∀ r row, s'.lookupRow r = some row → s.lookupRow r = some row ∨ tail r ∧ row = .closedEffects []

theorem Empties.boundRow (h : s.Empties tail s') {r : RowVarId} {row : Row} (hrow : s'.lookupRow r = some row) :
    s.lookupRow r = some row ∨ tail r ∧ row = .closedEffects [] := by
  rcases h.rows r with hsame | ⟨htail, -, hclosed⟩
  · exact .inl (hsame ▸ hrow)
  · exact .inr ⟨htail, Option.some.inj (hrow.symm.trans hclosed)⟩

theorem Empties.widens (h : s.Empties tail s') (default : Ty → Prop) : s.Widens tail default s' :=
  ⟨h.grows, fun v t ht => .inl (by rwa [lookupType, ← h.types]), fun _ _ => h.boundRow⟩

end Substitution

namespace Unifier

variable {u : Unifier} {r : RowVarId} {tail : RowVarId → Prop}

theorem run_closedEffects_free (hr : u.subst.lookupRow r = none) :
    (run (.rows (.closedEffects []) (.openEffects [] r)) u).2.subst = u.subst.bindRow r (.closedEffects []) := by
  obtain ⟨n, hn⟩ := depth_pos (u.applyGoal (.rows (.closedEffects []) (.openEffects [] r)))
  have hkind : (Row.closedEffects []).kind = (Row.openEffects [] r).kind := rfl
  have hne : Row.closedEffects [] ≠ Row.openEffects [] r := nofun
  have hcommon : (Row.closedEffects []).common (.openEffects [] r) = [] := rfl
  have hforM (m : Label × Ty × Ty → UnifyM PUnit) (u : Unifier) : ([].forM m : UnifyM PUnit) u = (.ok (), u) := rfl
  have hbound (action : Action) (left right : Ty) : ((u.record action left right).isBound (Row.closedEffects []).rest ||
      (u.record action left right).isBound (Row.openEffects [] r).rest) = false := by
    simp [isBound, Row.closedEffects, Row.openEffects, hr]
  simp only [run, attempt, exec_bind, exec_get, hn, solve, exec_ite, hkind, ne_eq, not_true_eq_false, if_false, u.subst.applyRow_closedEffects,
    Substitution.applyRow_openEffects hr, hne, run_note, hcommon, hforM, hbound]
  rfl

theorem run_closedEffects_bound (hr : u.subst.lookupRow r = some (.closedEffects [])) :
    (run (.rows (.closedEffects []) (.openEffects [] r)) u).2.subst = u.subst := by
  obtain ⟨n, hn⟩ := depth_pos (u.applyGoal (.rows (.closedEffects []) (.openEffects [] r)))
  have hkind : (Row.closedEffects []).kind = (Row.openEffects [] r).kind := rfl
  simp only [run, attempt, exec_bind, exec_get, hn, solve, hkind, ne_eq, not_true_eq_false, if_false, u.subst.applyRow_closedEffects,
    Substitution.applyRow_openEffects_bound hr, if_true, exec_pure]

theorem run_empties (htail : tail r) (hr : u.subst.Closable r) :
    u.subst.Empties tail (run (.rows (.closedEffects []) (.openEffects [] r)) u).2.subst := by
  rcases hr with hr | hr
  · rw [run_closedEffects_free hr]
    exact Substitution.empties_bindRow htail hr
  · rw [run_closedEffects_bound hr]
    exact .refl _ _

variable {defaults : Substitution}

theorem bindDefaults_rows : (u.bindDefaults defaults).subst.rows = u.subst.rows := by
  rw [bindDefaults]
  induction defaults.types generalizing u with
  | nil => rfl
  | cons e es ih =>
      rw [List.foldl_cons, ih, bindDefault]
      split <;> rfl

theorem extends_bindDefaults : (u.bindDefaults defaults).subst.Extends u.subst := by
  rw [bindDefaults]
  induction defaults.types generalizing u with
  | nil => exact .refl _
  | cons e es ih =>
      rw [List.foldl_cons]
      apply ih.trans
      rw [bindDefault]
      split
      next hnone => exact Substitution.extends_bindType (Substitution.not_binds_type.mpr (Option.isNone_iff_eq_none.mp hnone))
      next => exact .refl _

theorem lookupType_bindDefaults {v : TypeVarId} {t : Ty} (h : (u.bindDefaults defaults).subst.lookupType v = some t) :
    u.subst.lookupType v = some t ∨ (v, t) ∈ defaults.types := by
  rw [bindDefaults] at h
  generalize defaults.types = es at h ⊢
  induction es generalizing u with
  | nil => exact .inl h
  | cons e es ih =>
      rw [List.foldl_cons] at h
      rcases ih h with h | h
      · rw [bindDefault] at h
        split at h
        · rw [Substitution.lookupType_bindType] at h
          split at h
          next heq =>
            cases h
            exact .inr (heq ▸ List.mem_cons_self)
          next => exact .inl h
        · exact .inl h
      · exact .inr (List.mem_cons_of_mem e h)

end Unifier

namespace Context

variable {c : Context} {tail : RowVarId → Prop}

theorem foldl_empties {qs : List Equation} (htail : ∀ r, tail r → c.subst.Closable r)
    (hqs : ∀ q ∈ qs, ∃ r, tail r ∧ q.goal = .rows (.closedEffects []) (.openEffects [] r)) :
    c.subst.Empties tail (qs.foldl solveEquation c).subst := by
  induction qs generalizing c with
  | nil => exact .refl _ _
  | cons q qs ih =>
      obtain ⟨⟨r, hr, hgoal⟩, hqs⟩ := List.forall_mem_cons.mp hqs
      have hstep : c.subst.Empties tail (c.solveEquation q).subst := by
        rw [subst_solveEquation, hgoal]
        exact Unifier.run_empties hr (htail r hr)
      exact hstep.trans (ih (fun r hr => hstep.closable (htail r hr)) hqs)

theorem subst_applyDefaults (defaults : Substitution) :
    (c.applyDefaults defaults).subst = if defaults.isEmpty then c.subst else (c.unifier.bindDefaults defaults).subst := by
  rw [applyDefaults_eq]
  split <;> rfl

theorem applyDefaults_cases (c : Context) (defaults : Substitution) : c.applyDefaults defaults = c ∨
    (c.applyDefaults defaults).classes = c.classes.map (ClassConstraint.mapTy (c.applyDefaults defaults).subst.apply) := by
  rw [applyDefaults_eq]
  split
  · exact .inl rfl
  · exact .inr rfl

theorem widens_applyDefaults {s : Substitution} {default : Ty → Prop} (h : s.Empties tail c.subst) {defaults : Substitution}
    (hdefaults : ∀ e ∈ defaults.types, default e.2) : s.Widens tail default (c.applyDefaults defaults).subst := by
  rw [subst_applyDefaults]
  split
  · exact h.widens default
  · refine ⟨Unifier.extends_bindDefaults.trans h.grows, fun v t ht => ?_, fun r row hrow => h.boundRow ?_⟩
    · exact (Unifier.lookupType_bindDefaults ht).imp (fun ht => by rwa [Substitution.lookupType, ← h.types]) (hdefaults _)
    · rwa [Substitution.lookupRow, Unifier.bindDefaults_rows] at hrow

end Context

namespace InferM

variable {c : Context} {session : Session} {env : Env}

structure ResultTail (c : Context) (ts : List Ty) (envRowVars : List RowVarId) (r : RowVarId) : Prop where
  latent : ∃ t ∈ ts, (c.apply t).latentTail = some r
  outside : r ∉ envRowVars
  once : (Ty.tuple (ts.map c.apply)).countRowVar r = 1

theorem ResultTail.unbound {ts : List Ty} {envRowVars : List RowVarId} {r : RowVarId} (h : ResultTail c ts envRowVars r)
    (hacyclic : c.subst.Acyclic) : c.subst.lookupRow r = none := by
  obtain ⟨t, ht, hlatent⟩ := h.latent
  refine Substitution.not_binds_row.mp (hacyclic.free_of_apply (t := t) (Ty.mem_rowVars_iff.mp ?_))
  change r ∈ (c.apply t).rowVars
  generalize c.apply t = t at hlatent
  cases t with
  | fn ps e t =>
      cases e with
      | none => cases hlatent
      | some row =>
          refine Ty.mem_rowVars_iff.mpr (Ty.mem_vars_fn.mpr (.inr (.inl ⟨row, rfl, ?_⟩)))
          obtain ⟨k, fs, rest⟩ := row
          exact Row.mem_vars.mpr (.inr ⟨r, hlatent, rfl⟩)
  | _ => cases hlatent

theorem closeResultEffects_empties (node : NodeId) (ts : List Ty) (envRowVars : List RowVarId) (hacyclic : c.subst.Acyclic)
    (hequations : c.equations = .empty) : Ensures (closeResultEffects node ts envRowVars) c fun _ c' =>
      c.subst.Empties (ResultTail c ts envRowVars) c'.subst := by
  apply ensures_get
  refine ensures_ite (fun _ => .refl _ _) fun _ => ?_
  refine .bind (ensures_forM (P := fun c' => c'.subst = c.subst ∧ ∀ q ∈ c'.equations.toList, ∃ r, ResultTail c ts envRowVars r ∧
    q.goal = .rows (.closedEffects []) (.openEffects [] r)) ⟨rfl, ?_⟩ fun r hr c₁ h₁ => ?_) fun _ c₁ h₁ => ?_
  · rw [hequations]
    exact List.forall_mem_nil _
  · obtain ⟨hlatent, hr⟩ := List.mem_filter.mp hr
    obtain ⟨_, happlied, hlatent⟩ := List.mem_filterMap.mp hlatent
    obtain ⟨t, ht, rfl⟩ := List.mem_map.mp happlied
    simp only [Bool.and_eq_true, Bool.not_eq_true', List.contains_eq_mem, decide_eq_false_iff_not, beq_iff_eq] at hr
    refine ⟨h₁.1, fun q hq => ?_⟩
    have hq : q ∈ (c₁.equations.push ⟨.rows (.closedEffects []) (.openEffects [] r), node, c₁.path, .effectJoin⟩).toList := hq
    rw [Scopes.push, Scopes.toList_append, List.mem_append, List.mem_singleton] at hq
    rcases hq with hq | rfl
    · exact h₁.2 q hq
    · exact ⟨r, ⟨⟨t, ht, hlatent⟩, hr.1, hr.2⟩, rfl⟩
  · rw [Ensures, ← h₁.1]
    change Substitution.Empties _ _ c₁.flush.subst
    rw [Context.flush_eq]
    refine Context.foldl_empties (c := { c₁ with equations := .empty }) (fun r hr => .inl ?_) h₁.2
    exact (congrArg (Substitution.lookupRow · r) h₁.1).trans (hr.unbound hacyclic)

structure Commits (session : Session) (env : Env) (ts : List Ty) (c : Context) (cl : Closing) (c' : Context) : Prop where
  envTypeVars : cl.envTypeVars = env.freeTypeVars c.solve.subst
  envRowVars : cl.envRowVars = env.freeRowVars c.solve.subst
  types : cl.types = ts.map c'.apply
  widens : c.solve.subst.Acyclic → c.solve.subst.Widens (ResultTail c.solve ts cl.envRowVars) session.registry.IsDefault c'.subst
  taken : ∃ f, cl.constraints = c.solve.classes.takeScope.1.map (ClassConstraint.mapTy f) ∧
    c'.classes = c.solve.classes.takeScope.2.map (ClassConstraint.mapTy f) ∧
    (f = c'.apply ∨ f = (fun t => t) ∧ (c.solve.subst.Acyclic → c'.subst.types = c.solve.subst.types))

theorem applyOutcome_applies (node : NodeId) (monotype : Ty) (outcome : DefaultingOutcome) :
    Ensures (applyOutcome node monotype outcome) c fun _ c' =>
      ∃ c₁ : Context, c₁.subst = c.subst ∧ c₁.classes = c.classes ∧ c' = c₁.applyDefaults outcome.subst := by
  refine ensures_modify (.bind (ensures_forM (P := fun c' => c'.subst = c.subst ∧ c'.classes = c.classes) ⟨rfl, rfl⟩ ?_) fun _ c' h => ?_)
  · exact fun _ _ _ h => h
  · exact ensures_ite (fun _ => ⟨c'.note node monotype _, h.1, h.2, rfl⟩) fun _ => ⟨c', h.1, h.2, rfl⟩

theorem closing_commits (node : NodeId) (ts : List Ty) (level : BindingLevel) (generalizable : Bool) :
    Ensures (closing session env node ts level generalizable) c (Commits session env ts c) := by
  have hresult : Ensures (closeResultEffects node ts (env.freeRowVars c.solve.subst)) c.solve fun _ c₁ => c₁.classes = c.solve.classes ∧
      (c.solve.subst.Acyclic → c.solve.subst.Empties (ResultTail c.solve ts (env.freeRowVars c.solve.subst)) c₁.subst) :=
    .intro ⟨closeResultEffects_classes .., fun hacyclic => closeResultEffects_empties node ts _ hacyclic Context.equations_flush⟩
  refine ensures_solve (ensures_get (.bind hresult fun _ c₁ h₁ => ensures_get (.bind (applyOutcome_applies ..) fun _ c₂ h₂ => ?_)))
  refine .bind (Q := fun ks c₃ => ks = c₂.classes.takeScope.1 ∧ c₃.classes = c₂.classes.takeScope.2 ∧ c₃.subst = c₂.subst) ⟨rfl, rfl, rfl⟩
    fun constraints c₃ h₃ => ensures_get ?_
  refine .bind (Q := fun _ c₄ => c₄.subst = c₃.subst ∧ c₄.classes = c₃.classes)
    ⟨(resolveGround_passes ..).subst, (resolveGround_pending ..).2⟩ fun pending c₄ h₄ => ensures_pure ?_
  obtain ⟨c₂', hsubst, hclasses, rfl⟩ := h₂
  have hempties (hacyclic : c.solve.subst.Acyclic) := hsubst ▸ h₁.2 hacyclic
  have hsame := h₄.1.trans h₃.2.2
  refine ⟨rfl, rfl, congrArg (fun s : Substitution => ts.map s.apply) h₄.1.symm, fun hacyclic => ?_, ?_⟩
  · rw [hsame]
    exact Context.widens_applyDefaults (hempties hacyclic) fun e he => (Defaulting.sound_defaultConstraints ..).binds e he |>.1
  · rw [h₃.1, h₄.2, h₃.2.1]
    rcases c₂'.applyDefaults_cases _ with hnone | hmapped
    · refine ⟨fun t => t, ?_, ?_, .inr ⟨rfl, fun hacyclic => ?_⟩⟩
      · rw [hnone, hclasses, h₁.1]
        exact (List.map_id' _).symm
      · rw [hnone, hclasses, h₁.1]
        exact (Scopes.map_id _).symm
      · rw [hsame, hnone]
        exact (hempties hacyclic).types
    · have happly : c₄.apply = (c₂'.applyDefaults _).subst.apply := congrArg Substitution.apply hsame
      rw [hmapped, hclasses, h₁.1, Scopes.takeScope_map]
      exact ⟨c₄.apply, by rw [happly], by rw [happly], .inl rfl⟩

end InferM

end RowTyping
