import RowTyping.Proofs.Inference.Checkers
import RowTyping.Proofs.Inference.ResultEffects

namespace RowTyping

section Kept

variable {σ : TypeVarId → Option Ty} {ρ : RowVarId → Option Row} {w : Var}

theorem Ty.mem_vars_subst_of_kept (hw : w ∈ image σ ρ w) :
    (∀ t : Ty, (∀ q, .row q ∈ t.vars → ∀ x ∈ ρ q, x.fields = []) → w ∈ t.vars → w ∈ (t.subst σ ρ).vars) ∧
      ∀ r : Row, (∀ q, .row q ∈ r.vars → ∀ x ∈ ρ q, x.fields = []) → w ∈ r.vars → w ∈ (substRow σ ρ r).vars := by
  apply Ty.induct_rows
  case var =>
    intro v _ hv
    obtain rfl := mem_vars_var.mp hv
    cases hv : σ v.id with
    | none => simp [hv]
    | some x => simpa [image, hv] using hw
  case con => exact fun _ _ hv => absurd hv mem_vars_con
  case app =>
    intro f as hf has htails hv
    rw [subst_app, mem_vars_app]
    rcases mem_vars_app.mp hv with hv | ⟨a, ha, hv⟩
    · exact .inl (hf (fun q hq => htails q (mem_vars_app.mpr (.inl hq))) hv)
    · exact .inr ⟨_, List.mem_map_of_mem ha, has a ha (fun q hq => htails q (mem_vars_app.mpr (.inr ⟨a, ha, hq⟩))) hv⟩
  case list => exact fun _ ha htails hv => ha htails hv
  case tuple =>
    intro as has htails hv
    obtain ⟨a, ha, hv⟩ := mem_vars_tuple.mp hv
    rw [subst_tuple, mem_vars_tuple]
    exact ⟨_, List.mem_map_of_mem ha, has a ha (fun q hq => htails q (mem_vars_tuple.mpr ⟨a, ha, hq⟩)) hv⟩
  case fn =>
    intro ps e t hps he ht htails hv
    rw [subst_fn, mem_vars_fn]
    rcases mem_vars_fn.mp hv with ⟨p, hp, hv⟩ | ⟨row, rfl, hvr⟩ | hv
    · exact .inl ⟨_, List.mem_map_of_mem hp, hps p hp (fun q hq => htails q (mem_vars_fn.mpr (.inl ⟨p, hp, hq⟩))) hv⟩
    · exact .inr (.inl ⟨_, rfl, he row rfl (fun q hq => htails q (mem_vars_fn.mpr (.inr (.inl ⟨row, rfl, hq⟩)))) hvr⟩)
    · exact .inr (.inr (ht (fun q hq => htails q (mem_vars_fn.mpr (.inr (.inr hq)))) hv))
  case record => exact fun _ hr htails hv => hr htails hv
  case row =>
    intro k fs rest hfs htails hv
    have hfield {f : Label × Ty} (hf : f ∈ fs) (hv : w ∈ f.2.vars) : w ∈ (f.2.subst σ ρ).vars :=
      hfs f hf (fun q hq => htails q (Row.mem_vars.mpr (.inl ⟨f, hf, hq⟩))) hv
    have hmapped {f : Label × Ty} (hf : f ∈ fs) : (f.1, f.2.subst σ ρ) ∈ OrderedMap.mapValues (subst σ ρ) fs :=
      List.mem_map_of_mem (f := fun e : Label × Ty => (e.1, e.2.subst σ ρ)) hf
    cases htail : rest.bind ρ with
    | none =>
        rw [substRow_none_tail htail, Row.mem_vars]
        rcases Row.mem_vars.mp hv with ⟨f, hf, hv⟩ | htail
        · exact .inl ⟨_, hmapped hf, hfield hf hv⟩
        · exact .inr htail
    | some x =>
        obtain ⟨q, rfl, hx⟩ := Option.bind_eq_some_iff.mp htail
        have hempty := htails q (Row.mem_vars.mpr (.inr ⟨q, rfl, rfl⟩)) x hx
        rw [substRow_some_tail htail, hempty, Row.mem_vars]
        rcases Row.mem_vars.mp hv with ⟨f, hf, hv⟩ | ⟨q', hq', rfl⟩
        · exact .inl ⟨_, hmapped hf, hfield hf hv⟩
        · cases hq'
          obtain ⟨k', gs, rest'⟩ := x
          cases hempty
          rcases Row.mem_vars.mp (by simpa [image, hx] using hw) with ⟨_, hg, -⟩ | hrest
          · cases hg
          · exact .inr hrest

end Kept

open Relation

namespace Substitution

variable {s s' : Substitution} {tail : RowVarId → Prop} {default : Ty → Prop}

section Widening

variable (h : s.Widens tail default s') (hground : ∀ t, default t → t.isGround = true)

include h hground

-- The bindings that are added mention nothing.
theorem Widens.depends {v w : Var} (hvw : s'.Depends v w) : s.Depends v w := by
  cases v with
  | type id =>
      obtain ⟨t, ht⟩ := hvw.binds
      rw [Depends, uses_type ht] at hvw
      rcases h.boundType id t ht with hs | hdefault
      · rwa [Depends, uses_type hs]
      · exact absurd hvw (Ty.isGround_iff.mp (hground t hdefault) w)
  | row id =>
      obtain ⟨r, hr⟩ := hvw.binds
      rw [Depends, uses_row hr] at hvw
      rcases h.boundRow id r hr with hs | ⟨-, rfl⟩
      · rwa [Depends, uses_row hs]
      · cases hvw

theorem Widens.acyclic (hs : s.Acyclic) : s'.Acyclic :=
  fun v hv => hs v (TransGen.mono (fun _ _ => h.depends hground) _ _ hv)

theorem Widens.mem_vars_apply (hs : s.Acyclic) (hordered : s.Ordered) (hordered' : s'.Ordered) {t : Ty} (ht : t.Ordered) {w : Var}
    (hw : ¬ s'.Binds w) : w ∈ (s'.apply t).vars ↔ w ∈ (s.apply t).vars := by
  have hacyclic := h.acyclic hground hs
  have hfree : ∀ v ∈ (s.apply t).vars, ¬ s.Binds v := fun v => hs.free_of_apply
  rw [← hacyclic.apply_absorbed hordered' h.grows.honours hordered ht]
  generalize s.apply t = t at hfree
  constructor
  · intro hmem
    obtain ⟨v, hv, hpath⟩ := depends_of_apply hmem
    rwa [← eq_of_reach (ReflTransGen.mono (fun _ _ => h.depends hground) _ _ hpath) (hfree v hv)]
  · rw [hacyclic.apply_eq]
    intro hmem
    refine (Ty.mem_vars_subst_of_kept ?_).1 t (fun q hq x hx => ?_) hmem
    · cases w with
      | type id => simp [Ty.image, assigned, not_binds_type.mp hw]
      | row id => simp [Ty.image, assignedRow, not_binds_row.mp hw]
    · obtain ⟨row, hrow, rfl⟩ := Option.map_eq_some_iff.mp hx
      rcases h.boundRow q row hrow with hbound | ⟨-, rfl⟩
      · exact absurd ⟨row, hbound⟩ (hfree _ hq)
      · rw [s'.applyRow_closedEffects]
        rfl

end Widening

theorem Widens.ordered (h : s.Widens tail default s') (hs : s.Ordered) (hdefault : ∀ t, default t → t.Ordered) : s'.Ordered :=
  ⟨fun v t ht => (h.boundType v t ht).elim (hs.1 v t) (hdefault t),
    fun r row hrow => (h.boundRow r row hrow).elim (hs.2 r row) fun hclosed => hclosed.2 ▸ by decide⟩

theorem Widens.outside (h : s.Widens tail default s') (scheme : Scheme) :
    (s.outside scheme).Widens tail default (s'.outside scheme) := by
  refine ⟨⟨fun v t ht => ?_, fun r row hrow => ?_⟩, fun v t ht => ?_, fun r row hrow => ?_⟩
  · rw [lookupType_outside] at ht ⊢
    split at ht
    · cases ht
    next hfree => rw [if_neg hfree, h.grows.1 v t ht]
  · rw [lookupRow_outside] at hrow ⊢
    split at hrow
    · cases hrow
    next hfree => rw [if_neg hfree, h.grows.2 r row hrow]
  · rw [lookupType_outside] at ht ⊢
    split at ht
    · cases ht
    next hfree => exact if_neg hfree ▸ h.boundType v t ht
  · rw [lookupRow_outside] at hrow ⊢
    split at hrow
    · cases hrow
    next hfree => exact if_neg hfree ▸ h.boundRow r row hrow

end Substitution

namespace Env

variable {env : Env} {s s' : Substitution}

def Free (env : Env) (s : Substitution) : Var → Prop
  | .type v => v ∈ env.freeTypeVars s
  | .row r => r ∈ env.freeRowVars s

/-- The types of a scheme in which a variable of its kind counts as free: of a row variable that is the type only. -/
def freeTypes (scheme : Scheme) : Var → List Ty
  | .type _ => scheme.ty :: scheme.predicates.map Predicate.ty
  | .row _ => [scheme.ty]

theorem free_iff {v : Var} : env.Free s v ↔ ∃ scheme ∈ env.schemes, v ∉ scheme.quantified ∧
    ∃ t ∈ freeTypes scheme v, v ∈ ((s.outside scheme).apply t).vars := by
  cases v with
  | type v =>
      simp only [Free, freeTypeVars, OrderedSet.mem_ofList, List.mem_flatMap]
      refine exists_congr fun scheme => and_congr_right fun _ => ?_
      rw [Scheme.freeTypeVars, OrderedSet.mem_diff, OrderedSet.mem_ofList, and_comm, Scheme.type_mem_quantified]
      apply and_congr .rfl
      simp [freeTypes, Substitution.applyScheme, Substitution.applyPredicate, Ty.mem_typeVars_iff]
  | row r =>
      simp only [Free, freeRowVars, OrderedSet.mem_ofList, List.mem_flatMap]
      refine exists_congr fun scheme => and_congr_right fun _ => ?_
      rw [Scheme.freeRowVars, OrderedSet.mem_diff, and_comm, Scheme.row_mem_quantified]
      simp [freeTypes, Substitution.applyScheme, Ty.mem_rowVars_iff]

theorem ordered_freeTypes {scheme : Scheme} (h : scheme.ty.Ordered ∧ ∀ p ∈ scheme.predicates, p.ty.Ordered) {v : Var} {t : Ty}
    (ht : t ∈ freeTypes scheme v) : t.Ordered := by
  cases v with
  | type _ =>
      rcases List.mem_cons.mp ht with rfl | ht
      · exact h.1
      · obtain ⟨p, hp, rfl⟩ := List.mem_map.mp ht
        exact h.2 p hp
  | row _ => exact List.mem_singleton.mp ht ▸ h.1

theorem free_widens {tail : RowVarId → Prop} {default : Ty → Prop} (h : s.Widens tail default s')
    (hground : ∀ t, default t → t.isGround = true) (hs : s.Acyclic) (hordered : s.Ordered) (hordered' : s'.Ordered)
    (henv : ∀ scheme ∈ env.schemes, scheme.ty.Ordered ∧ ∀ p ∈ scheme.predicates, p.ty.Ordered) {v : Var} (hv : ¬ s'.Binds v) :
    env.Free s' v ↔ env.Free s v := by
  rw [free_iff, free_iff]
  refine exists_congr fun scheme => ?_
  refine and_congr_right fun hscheme => ?_
  refine and_congr_right fun hfree => ?_
  refine exists_congr fun t => ?_
  refine and_congr_right fun ht => ?_
  have hgrows := s.extends_outside scheme
  have hgrows' := s'.extends_outside scheme
  refine (h.outside scheme).mem_vars_apply hground (hgrows.acyclic hs) (hordered.of_extends hgrows) (hordered'.of_extends hgrows')
    (ordered_freeTypes (henv scheme hscheme) ht) fun hbound => hv (Substitution.binds_outside.mp hbound).2

end Env

theorem Scheme.mem_quantified_generalize {t : Ty} {ps : List Predicate} {envTypeVars : List TypeVarId} {envRowVars : List RowVarId}
    {v : Var} : v ∈ (t.generalize ps envTypeVars envRowVars).quantified ↔ v ∈ t.vars ∧ match v with
      | .type v => v ∉ envTypeVars
      | .row r => r ∉ envRowVars := by
  cases v with
  | type v => rw [type_mem_quantified, Ty.mem_typeVars_generalize, OrderedSet.mem_diff, Ty.mem_typeVars_iff]
  | row r => rw [row_mem_quantified, Ty.mem_rowVars_generalize, OrderedSet.mem_diff, Ty.mem_rowVars_iff]

namespace InferM

variable {c : Context} {s : State} {session : Session} {env : Env}

theorem conclude_schemes (node : NodeId) (level : BindingLevel) (cl : Closing) :
    Ensures (conclude node level true cl) c fun schemes _ => schemes = cl.types.map fun t =>
      t.generalize (attached (OrderedSet.diff t.typeVars cl.envTypeVars) cl.pending) cl.envTypeVars cl.envRowVars := by
  refine .bind (mapM_schemeOf ..) fun _ _ h => ?_
  exact .bind (dispose_disposes ..) fun _ _ _ => ensures_pure h.1

theorem ordered_solve (hs : s.Ready) : s.context.solve.subst.Ordered := by
  obtain ⟨l, -, hs₁, -⟩ := keeps_solve hs
  exact hs₁.unifier.within.ordered

section Quantified

variable (hs : s.Ready) (hsupports : s.Supports session) (henv : s.OwnsEnv env) (hacyclic : s.context.solve.subst.Acyclic)

include hsupports hacyclic in
theorem Commits.acyclic {ts : List Ty} {cl : Closing} {c' : Context} (h : Commits session env ts s.context cl c') : c'.subst.Acyclic :=
  (h.widens hacyclic).acyclic (fun t ht => (hsupports.defaults t ht).1) hacyclic

include hs hsupports hacyclic in
theorem Commits.ordered {ts : List Ty} {cl : Closing} {c' : Context} (h : Commits session env ts s.context cl c') : c'.subst.Ordered :=
  (h.widens hacyclic).ordered (ordered_solve hs) fun t ht => (hsupports.defaults t ht).2.within.1

include hs hsupports henv hacyclic

-- What is unbound behind the boundary is free in the environment exactly if it was so before the boundary bound anything.
theorem Commits.mem_quantified {ts : List Ty} {cl : Closing} {c' : Context} (h : Commits session env ts s.context cl c') (t : Ty)
    (ps : List Predicate) (v : Var) : v ∈ ((c'.apply t).generalize ps cl.envTypeVars cl.envRowVars).quantified ↔
      v ∈ (c'.apply t).vars ∧ ¬ env.Free c'.subst v := by
  have hschemes : ∀ scheme ∈ env.schemes, scheme.ty.Ordered ∧ ∀ p ∈ scheme.predicates, p.ty.Ordered := fun scheme hscheme =>
    ⟨(henv scheme hscheme).ty.within.1, fun p hp => ((henv scheme hscheme).predicates p hp).1⟩
  rw [Scheme.mem_quantified_generalize, h.envTypeVars, h.envRowVars]
  refine and_congr_right fun hv => ?_
  have hbound : ¬ c'.subst.Binds v := (h.acyclic hsupports hacyclic).free_of_apply hv
  rw [Env.free_widens (h.widens hacyclic) (fun t ht => (hsupports.defaults t ht).1) hacyclic (ordered_solve hs) (h.ordered hs hsupports hacyclic) hschemes hbound]
  cases v <;> rfl

theorem closeBoundary_free (node : NodeId) (ts : List Ty) (level : BindingLevel) :
    Ensures (closeBoundary session env node ts level true) s.context fun schemes c' => ∀ scheme ∈ schemes,
      (∀ v, v ∈ scheme.quantified ↔ v ∈ scheme.ty.vars ∧ ¬ env.Free c'.subst v) ∧
      (∀ v ∈ scheme.ty.vars, v ∈ scheme.quantified ∨ env.Free c'.subst v) ∧
      ∀ p ∈ scheme.predicates, (∀ v ∈ p.ty.typeVars, .type v ∈ scheme.quantified) ∧
        ∀ v ∈ p.ty.vars, (v ∈ scheme.quantified ∨ env.Free c'.subst v) ↔ (v ∈ scheme.ty.vars ∨ env.Free c'.subst v) := by
  rw [closeBoundary_eq]
  refine (closing_commits node ts level true).bind fun cl c₁ hcl => ?_
  have hconclude : Ensures (conclude node level true cl) c₁ fun schemes c' => c'.subst = c₁.subst ∧ schemes = cl.types.map fun t =>
      t.generalize (attached (OrderedSet.diff t.typeVars cl.envTypeVars) cl.pending) cl.envTypeVars cl.envRowVars :=
    .intro ⟨(conclude_passes ..).subst, conclude_schemes ..⟩
  apply hconclude.mono
  rintro _ c' ⟨hsubst, rfl⟩ scheme hscheme
  obtain ⟨_, ht, rfl⟩ := List.mem_map.mp hscheme
  rw [hcl.types] at ht
  obtain ⟨t, -, rfl⟩ := List.mem_map.mp ht
  have hquantified := hcl.mem_quantified hs hsupports henv hacyclic t (attached (OrderedSet.diff (c₁.apply t).typeVars cl.envTypeVars) cl.pending)
  have hcovered (v : Var) (hv : v ∈ (c₁.apply t).vars) := or_iff_not_imp_right.mpr fun hfree => (hquantified v).mpr ⟨hv, hfree⟩
  rw [hsubst]
  refine ⟨hquantified, hcovered, fun p hp => ⟨fun v hv => ?_, fun v _ => ⟨?_, ?_⟩⟩⟩
  · obtain ⟨k, -, hattaches, rfl⟩ := mem_attached.mp hp
    rw [Scheme.type_mem_quantified, Ty.mem_typeVars_generalize]
    exact (attaches_iff.mp hattaches).2 v hv
  · exact Or.imp_left fun hv => ((hquantified v).mp hv).1
  · exact fun hv => hv.elim (hcovered v) .inr

end Quantified

theorem closeBoundary_free_captured :
    let s : State := ⟨(Context.ofSupply ⟨2, 0⟩).addClass "Eq" (.list (.ofVar 1)) 0 .operator, none⟩
    let session : Session := ⟨.empty, .default, []⟩
    let env := Env.empty.nest [("y", .mono (.ofVar 0))]
    let out := (closeBoundary session env 0 [.fn [.ofVar 1] none (.ofVar 0)] .nested true).run s.context
    (s.Ready ∧ s.Supports session ∧ s.OwnsEnv env ∧ s.context.solve.subst.Acyclic) ∧
      out.1 = [⟨[.star 1], [], [⟨"Eq", .list (.ofVar 1)⟩], .fn [.ofVar 1] none (.ofVar 0)⟩] ∧
      ∀ scheme ∈ out.1, .type 1 ∈ scheme.quantified ∧ env.Free out.2.subst (.type 0) := by
  intro s session env out
  have hs : s.Ready := ⟨Unifier.ready_empty rfl, nofun, nofun, nofun, nofun, by decide, nofun⟩
  have hsupports : s.Supports session := by
    refine ⟨nofun, fun t ht => ?_⟩
    obtain rfl : t = .int := ht.resolve_right fun ⟨_, h⟩ => nomatch h
    exact ⟨by decide, State.owns_con _⟩
  have henv : s.OwnsEnv env := List.forall_mem_singleton.mpr (State.ownsScheme_mono (State.owns_var (by decide)))
  have hacyclic : s.context.solve.subst.Acyclic := by
    have hempty : s.context.solve.subst = .empty := by decide +kernel
    exact hempty ▸ Substitution.acyclic_empty
  have hout : out.1 = [⟨[.star 1], [], [⟨"Eq", .list (.ofVar 1)⟩], .fn [.ofVar 1] none (.ofVar 0)⟩] := by decide +kernel
  refine ⟨⟨hs, hsupports, henv, hacyclic⟩, hout, fun scheme hscheme => ?_⟩
  obtain ⟨-, hcovered, hpredicates⟩ := closeBoundary_free hs hsupports henv hacyclic 0 [.fn [.ofVar 1] none (.ofVar 0)] .nested scheme hscheme
  obtain rfl := List.mem_singleton.mp (hout ▸ hscheme)
  exact ⟨(hpredicates _ (List.mem_singleton_self _)).1 1 (by decide), (hcovered (.type 0) (by decide)).resolve_left (by decide)⟩

theorem inferBinding_leaves_tail_free :
    let pair (id : NodeId) : Expr := .tuple id [.var (id - 2) "x", .var (id - 1) "f"]
    let compare : Expr := .lambda 8 ["f"] (.binary 7 .eq (pair 3) (pair 6))
    let shout : Expr := .lambda 12 ["y"] (.binary 11 .concat (.var 9 "y") (.lit 10 (.string "t")))
    let out := (inferBinding ⟨.prelude, .default, []⟩ .empty (.lambda 14 ["x"] (.app 13 compare [shout])) .nested).run (.ofSupply ⟨100, 100⟩)
    ∃ p ∈ out.1.1.predicates, ∃ r ∈ p.ty.rowVars, r ∉ out.1.1.rowVars ∧ r ∉ Env.empty.freeRowVars out.2.subst := by
  decide +kernel

end InferM

end RowTyping
