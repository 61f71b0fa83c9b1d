import RowTyping.Proofs.Freshness.Unification
import RowTyping.Proofs.Inference.Keeps

namespace RowTyping

open Walk

namespace Context

structure Below (c : Context) : Prop where
  subst : c.unifier.Fresh
  equations : ∀ q ∈ c.equations.toList, ∀ v ∈ q.goal.vars, c.unifier.supply.Covers v
  classes : ∀ k ∈ c.classes.toList, ∀ v ∈ k.ty.vars, c.unifier.supply.Covers v

structure Fresh (old : List Var) (c : Context) : Prop extends Below c where
  resolved : ∀ v ∈ c.resolved.mentions, v ∈ old ∨ c.unifier.supply.Covers v

def guard (old : List Var) : Guard Context where
  good := Fresh old
  drawn c := c.unifier.supply.Covers

namespace Fresh

variable {old : List Var} {c c' : Context} (h : c.Fresh old)

include h

theorem alike (halike : c.Alike c') : (guard old).Leads c c' := by
  obtain ⟨hunifier, hequations, hclasses, hresolved⟩ := halike
  obtain ⟨⟨hsubst, hequations', hclasses'⟩, hresolved'⟩ := h
  have hkeeps (v : Var) (hv : c.unifier.supply.Covers v) : c'.unifier.supply.Covers v := hunifier.symm ▸ hv
  refine ⟨⟨⟨?_, ?_, ?_⟩, ?_⟩, hkeeps⟩
  · exact hunifier ▸ hsubst
  · exact hequations ▸ hunifier ▸ hequations'
  · exact hclasses ▸ hunifier ▸ hclasses'
  · exact hresolved ▸ hunifier ▸ hresolved'

theorem withUnifier {u : Unifier} (hu : Unifier.guard.Leads c.unifier u) : (guard old).Leads c { c with unifier := u } where
  good :=
    { subst := hu.good
      equations := fun q hq v hv => hu.keeps v (h.equations q hq v hv)
      classes := fun k hk v hv => hu.keeps v (h.classes k hk v hv)
      resolved := fun v hv => (h.resolved v hv).imp_right (hu.keeps v) }
  keeps := hu.keeps

theorem withEquations {equations : Scopes Equation}
    (hequations : ∀ q ∈ equations.toList, ∀ v ∈ q.goal.vars, c.unifier.supply.Covers v) : (guard old).Leads c { c with equations } :=
  ⟨⟨⟨h.subst, hequations, h.classes⟩, h.resolved⟩, fun _ hv => hv⟩

theorem withClasses {classes : Scopes ClassConstraint} (hclasses : ∀ k ∈ classes.toList, ∀ v ∈ k.ty.vars, c.unifier.supply.Covers v) :
    (guard old).Leads c { c with classes } :=
  ⟨⟨⟨h.subst, h.equations, hclasses⟩, h.resolved⟩, fun _ hv => hv⟩

theorem withResolved {resolved : ResolutionTable} (hresolved : ∀ v ∈ resolved.mentions, v ∈ old ∨ c.unifier.supply.Covers v) :
    (guard old).Leads c { c with resolved } :=
  ⟨⟨⟨h.subst, h.equations, h.classes⟩, hresolved⟩, fun _ hv => hv⟩

theorem bindDefault {v : TypeVarId} {t : Ty} (hv : c.unifier.supply.Covers (.type v)) (ht : ∀ w ∈ t.vars, c.unifier.supply.Covers w) :
    (guard old).Leads c (c.bindDefault v t) := by
  apply h.withUnifier
  rw [Unifier.bindDefault]
  split
  · exact h.subst.bindType hv ht
  · exact .refl h.subst

theorem addClass (className : String) {t : Ty} (node : NodeId) (origin : Origin) (ht : ∀ v ∈ t.vars, c.unifier.supply.Covers v) :
    (guard old).Leads c (c.addClass className t node origin) := by
  refine h.withClasses fun k hk => ?_
  rw [Scopes.push, Scopes.toList_append, List.mem_append, List.mem_singleton] at hk
  rcases hk with hk | rfl
  · exact h.classes k hk
  · exact ht

theorem deferClasses {ks : List ClassConstraint} (hks : ∀ k ∈ ks, ∀ v ∈ k.ty.vars, c.unifier.supply.Covers v) :
    (guard old).Leads c (c.deferClasses ks) := by
  refine h.withClasses fun k hk => ?_
  rw [Scopes.toList_append, List.mem_append] at hk
  exact hk.elim (h.classes k) (hks k)

theorem applyClasses : (guard old).Leads c c.applyClasses := by
  refine h.withClasses fun k hk v hv => ?_
  rw [Scopes.toList_map] at hk
  obtain ⟨k, hmem, rfl⟩ := List.mem_map.mp hk
  exact (Substitution.mem_vars_or_mentions hv).elim (h.classes k hmem v) (h.subst v)

theorem applyResolved : (guard old).Leads c c.applyResolved := by
  refine h.withResolved fun v hv => ?_
  exact (ResolutionTable.mem_mentions_apply hv).elim (h.resolved v) fun hv => .inr (h.subst v hv)

end Fresh

end Context

namespace InferM

abbrev Contained {α : Type} (old : List Var) (K : Var → Prop) (m : InferM α) (V : α → Var → Prop) : Prop :=
  Walk.Contained (Context.guard old) K m V

variable {α : Type} {old : List Var} {K : Var → Prop} {V : α → Var → Prop}

theorem contained_get {f : Context → InferM α} (h : ∀ c, Contained old (fun v => v ∈ c.subst.mentions ∨ K v) (f c) V) :
    Contained old K (get >>= f) V :=
  Walk.contained_get (R := fun c v => v ∈ c.subst.mentions) (fun _ hc => hc.subst) h

theorem contained_get_classes {f : Context → InferM α}
    (h : ∀ c, Contained old (fun v => (v ∈ c.subst.mentions ∨ ∃ k ∈ c.classes.toList, v ∈ k.ty.vars) ∨ K v) (f c) V) :
    Contained old K (get >>= f) V := by
  refine Walk.contained_get (R := fun c v => v ∈ c.subst.mentions ∨ ∃ k ∈ c.classes.toList, v ∈ k.ty.vars) ?_ h
  rintro c hc v (hv | ⟨k, hk, hv⟩)
  · exact hc.subst v hv
  · exact hc.classes k hk v hv

theorem contained_aside {g : Context → Context} (h : ∀ c : Context, c.Alike (g c)) : Contained old K (modify g) (Silent Unit) :=
  contained_modify fun c hc => hc.good.alike (h c)

theorem contained_log (e : Event) : Contained old K (modify (Context.log e)) (Silent Unit) :=
  contained_aside fun _ => ⟨rfl, rfl, rfl, rfl⟩

theorem contained_note (node : NodeId) (t : Ty) (rule : InferRule) : Contained old K (note node t rule) (Silent Unit) :=
  contained_aside fun _ => ⟨rfl, rfl, rfl, rfl⟩

theorem contained_pushError (d : Context → Diagnostic) : Contained old K (modify fun c => c.pushError (d c)) (Silent Unit) :=
  contained_modify fun _ hc => hc.good.withUnifier ⟨hc.good.subst, fun _ hv => hv⟩

theorem contained_report (node : NodeId) (d : Diagnostic) : Contained old K (report node d) (Silent Unit) :=
  contained_pushError _

theorem contained_within {m : InferM α} (hm : Contained old K m V) (label : String) : Contained old K (within label m) V := by
  refine (contained_aside (g := Context.enter label) fun _ => ⟨rfl, rfl, rfl, rfl⟩).after fun _ => ?_
  refine hm.bind fun a => ?_
  refine (contained_aside (g := Context.leave) fun _ => ⟨rfl, rfl, rfl, rfl⟩).after fun _ => ?_
  exact contained_pure fun _ => .inl

section Supply

theorem contained_freshTypeVar : Contained old K freshTypeVar fun id v => v = .type id := by
  refine contained_modifyGet (fun c hc => hc.good.withUnifier hc.good.subst.drawType) ?_
  rintro c - v rfl
  exact Nat.lt_succ_self _

theorem contained_freshType : Contained old K freshType fun t v => v ∈ t.vars := by
  refine contained_freshTypeVar.bind fun _ => ?_
  exact contained_pure fun _ hv => .inl (Ty.mem_vars_var.mp hv)

theorem contained_freshRow : Contained old K freshRow fun r v => v = .row r := by
  refine contained_modifyGet (fun c hc => hc.good.withUnifier hc.good.subst.drawRow) ?_
  rintro c - v rfl
  exact Nat.lt_succ_self _

theorem contained_applied {t : Ty} (ht : ∀ v ∈ t.vars, K v) : Contained old K (applied t) fun t v => v ∈ t.vars := by
  refine contained_get fun _ => ?_
  exact contained_pure fun v hv => (Substitution.mem_vars_or_mentions hv).symm.imp_right (ht v)

end Supply

section Equations

theorem contained_addEquation (node : NodeId) (reason : Reason) {g : Goal} (hg : ∀ v ∈ g.vars, K v) :
    Contained old K (modify (Context.addEquation node reason g)) (Silent Unit) := by
  refine contained_modify fun c hc => ?_
  refine hc.good.withEquations fun q hq v hv => ?_
  rw [Scopes.push, Scopes.toList_append, List.mem_append, List.mem_singleton] at hq
  rcases hq with hq | rfl
  · exact hc.good.equations q hq v hv
  · exact hc.knows v (hg v hv)

theorem contained_equate (node : NodeId) (reason : Reason) {expected actual : Ty} (he : ∀ v ∈ expected.vars, K v)
    (ha : ∀ v ∈ actual.vars, K v) : Contained old K (equate node reason expected actual) (Silent Unit) :=
  contained_addEquation node reason ((Goal.both_vars _).mp ⟨he, ha⟩)

theorem contained_equateRows (node : NodeId) (reason : Reason) {expected actual : Row} (he : ∀ v ∈ expected.vars, K v)
    (ha : ∀ v ∈ actual.vars, K v) : Contained old K (equateRows node reason expected actual) (Silent Unit) :=
  contained_addEquation node reason ((Goal.both_vars _).mp ⟨he, ha⟩)

theorem contained_takeEquations : Contained old K takeEquations fun qs v => ∃ q ∈ qs, v ∈ q.goal.vars := by
  refine contained_modifyGet (fun c hc => hc.good.withEquations fun q hq => nomatch hq) ?_
  rintro c hc v ⟨q, hq, hv⟩
  exact hc.good.equations q hq v hv

theorem contained_unify {g : Goal} (hg : ∀ v ∈ g.vars, K v) : Contained old K (unify g) (Silent _) := by
  have hzoom : Contained old K (unify g) (Unifier.Answered (Silent Unit)) :=
    (Unifier.contained_attempt hg).zoom (fun c hc => ⟨hc.good.subst, hc.knows⟩) (fun c u hc hu => hc.withUnifier hu) fun _ _ _ hv => hv
  exact ⟨hzoom.passed, hzoom.ends, fun _ _ _ => False.elim⟩

theorem contained_solveEquation {q : Equation} (hq : ∀ v ∈ q.goal.vars, K v) : Contained old K (solveEquation q) (Silent Unit) := by
  refine (contained_unify hq).after fun answer => ?_
  refine (contained_log _).after fun _ => ?_
  cases answer with
  | ok => exact contained_idle
  | error e => exact contained_pushError fun c => c.failure q e

theorem contained_flush : Contained old K flush (Silent Unit) := by
  refine contained_takeEquations.bind fun qs => ?_
  refine contained_forM fun q hq => ?_
  exact contained_solveEquation fun v hv => .inl ⟨q, hq, hv⟩

theorem contained_applyClasses : Contained old K (modify Context.applyClasses) (Silent Unit) :=
  contained_modify fun _ hc => hc.good.applyClasses

theorem contained_solve : Contained old K solve (Silent Unit) := by
  refine contained_flush.after fun _ => ?_
  exact contained_applyClasses

end Equations

section Classes

theorem contained_addClass (className : String) {t : Ty} (node : NodeId) (origin : Origin) (ht : ∀ v ∈ t.vars, K v) :
    Contained old K (addClass className t node origin) (Silent Unit) := by
  refine contained_modify fun _ hc => ?_
  exact hc.good.addClass className node origin fun v hv => hc.knows v (ht v hv)

theorem contained_deferClasses {ks : List ClassConstraint} (hks : ∀ k ∈ ks, ∀ v ∈ k.ty.vars, K v) :
    Contained old K (modify (Context.deferClasses ks)) (Silent Unit) := by
  refine contained_modify fun _ hc => ?_
  exact hc.good.deferClasses fun k hk v hv => hc.knows v (hks k hk v hv)

theorem contained_pushClassScope : Contained old K (modify Context.pushClassScope) (Silent Unit) := by
  refine contained_modify fun c hc => ?_
  refine hc.good.withClasses fun k hk => hc.good.classes k ?_
  rwa [Scopes.toList_pushScope] at hk

theorem contained_takeClassScope : Contained old K takeClassScope fun ks v => ∃ k ∈ ks, v ∈ k.ty.vars := by
  refine contained_modifyGet (fun c hc => hc.good.withClasses fun k hk => ?_) ?_
  · exact hc.good.classes k (Scopes.mem_takeScope.mpr (.inr hk))
  · rintro c hc v ⟨k, hk, hv⟩
    exact hc.good.classes k (Scopes.mem_takeScope.mpr (.inl hk)) v hv

theorem contained_recordResolution {e : Resolution} (he : ∀ v ∈ e.ty.vars, K v) :
    Contained old K (modify fun c => { c with resolved := c.resolved.record e }) (Silent Unit) := by
  refine contained_modify fun c hc => ?_
  refine hc.good.withResolved fun v hv => ?_
  exact (ResolutionTable.mem_mentions_record hv).elim (fun hv => .inr (hc.knows v (he v hv))) (hc.good.resolved v)

theorem contained_applyDefaults {defaults : Substitution} (h : ∀ e ∈ defaults.types, K (.type e.1) ∧ ∀ v ∈ e.2.vars, K v) :
    Contained old K (applyDefaults defaults) (Silent Unit) := by
  have hbind (e : TypeVarId × Ty) (he : e ∈ defaults.types) :
      Contained old K (modify (Context.bindDefault e.1 e.2)) (Silent Unit) := by
    refine contained_modify fun c hc => ?_
    refine hc.good.bindDefault (hc.knows _ (h e he).1) fun v hv => ?_
    exact hc.knows v ((h e he).2 v hv)
  refine contained_ite (fun _ => contained_idle) fun _ => ?_
  refine (contained_forM hbind).after fun _ => ?_
  refine contained_applyClasses.after fun _ => ?_
  exact contained_modify fun _ hc => hc.good.applyResolved

end Classes

end InferM

end RowTyping
