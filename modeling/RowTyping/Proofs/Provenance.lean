import RowTyping.Proofs.EffectSoundness
import RowTyping.Proofs.Inference.Roots

namespace RowTyping

namespace Substitution

variable {s s' : Substitution} {e e' : TypedExpr}

theorem Acyclic.applyEffects_absorbed (hacyclic : s.Acyclic) (hord : s.Ordered) (h : s.Extends s') {row : Effects}
    (hrow : row.toRow.Ordered) : s.applyEffects (s'.applyEffects row) = s.applyEffects row := by
  cases row with
  | none => rfl
  | some row => exact congrArg some (hacyclic.applyRow_absorbed hord h.honours (hord.of_extends h) hrow)

theorem Ordered.applyEffects (hs : s.Ordered) {row : Effects} (hrow : row.toRow.Ordered) : (s.applyEffects row).toRow.Ordered := by
  cases row with
  | none => exact hrow
  | some row => exact hs.applyRow hrow

-- The bindings applied on the way are among those applied at the end.
theorem Refines.effects (h : s.Refines e e') (hacyclic : s.Acyclic) (hord : s.Ordered) (he : e.effects.toRow.Ordered) :
    e'.effects.toRow.Ordered ∧ s.applyEffects e'.effects = s.applyEffects e.effects := by
  induction h with
  | refl => exact ⟨he, rfl⟩
  | tail _ hstep ih =>
      obtain ⟨t, hextends, rfl⟩ := hstep
      rw [effects_applyExpr]
      exact ⟨(hord.of_extends hextends).applyEffects ih.1, (hacyclic.applyEffects_absorbed hord hextends ih.1).trans ih.2⟩

end Substitution

namespace State

variable {s : State} {session : Session} {sites : Sites} {n : TypedExpr}

def Stems (session : Session) (sites : Sites) (s : State) (n : TypedExpr) : Prop :=
  ∃ env e c, sites env e ∧ Yields session env e c n s.context ∧
    ((inferExpr session env e).run c).1.effects.toRow.Within s.supply

theorem rooted_stems (session : Session) (sites : Sites) : Rooted (Stems session sites) session sites where
  later := by
    rintro s s' n h ⟨env, e, c, hsite, hyields, hwithin⟩
    exact ⟨env, e, c, hsite, hyields.mono h.grows h.errors, hwithin.mono h.covers⟩
  applied := by
    rintro s n ⟨env, e, c, hsite, hyields, hwithin⟩
    exact ⟨env, e, c, hsite, hyields.applyExpr, hwithin⟩
  roots env e hsite s hs := by
    have hinfers : InferM.Infers session .anywhere env (inferExpr session env e) := infers_inferExpr session e env fun _ _ _ => trivial
    have hrun : InferM.Ensures (inferExpr session env e) s.context fun n c' =>
        n = ((inferExpr session env e).run s.context).1 ∧ c' = ((inferExpr session env e).run s.context).2 := ⟨rfl, rfl⟩
    refine ((hinfers s hs.ready hs.owned hs.supports).and_ensures hrun).mono ?_
    rintro n s' - - ⟨hinferred, rfl, hcontext⟩
    refine ⟨env, e, s.context, hsite, ⟨.refl, ?_, ?_⟩, hinferred.effects.within⟩
    · rw [hcontext]
      exact .refl _
    · rw [hcontext]
      exact fun h => h

end State

namespace Checker

open InferM

variable {checker : Checker} {supply : Supply} {signatures : EffectSignatures} {e : Expr} {out : CheckedExpr} {log : List Event}
  {P : State → TypedExpr → Prop}

theorem inferring_pervaded (hglobals : ∀ scheme ∈ checker.globals.schemes, scheme.Within supply)
    (hdefaults : ∀ t, checker.registry.IsDefault t → t.isGround = true ∧ t.Ordered)
    (hP : Rooted P (checker.session signatures) (Scoped checker.globals e)) : ∃ s : State,
      s.context = (checker.inferring supply signatures e).2 ∧ s.Ready ∧ ∀ n ∈ (checker.inferring supply signatures e).1.nodes, P s n := by
  have hs : (State.start checker supply none).Hosts (checker.session signatures) checker.globals :=
    ⟨State.ready_start nofun, ownsEnv_start hglobals, supports_start hdefaults signatures, rfl⟩
  have hkeeps : InferM.Keeps (within (Decl.expr e).label (inferTopLevel (checker.session signatures) checker.globals e))
      (State.start checker supply none) fun typed s' => ∀ n ∈ typed.nodes, P s' n := by
    refine keeps_within hs.ready fun s₁ h₁ hs₁ => ?_
    have htopLevel := keeps_topLevel_pervaded hP.toLasting (hs.later h₁.toFollows hs₁)
      (spreads_inferExpr hP e checker.globals fun _ _ h => h) e
    exact htopLevel.mono fun typed s₂ _ _ htyped s₃ h₃ _ n hn => hP.later h₃.toFollows (htyped.nodes n hn)
  rw [InferM.Keeps, run_start] at hkeeps
  generalize checker.inferring supply signatures e = out at *
  obtain ⟨l, -, hready, hnodes⟩ := hkeeps
  exact ⟨⟨out.2, l⟩, rfl, hready, hnodes⟩

theorem checkExpr_pervaded (hglobals : ∀ scheme ∈ checker.globals.schemes, scheme.Within supply)
    (hdefaults : ∀ t, checker.registry.IsDefault t → t.isGround = true ∧ t.Ordered)
    (hP : Rooted P (checker.session signatures) (Scoped checker.globals e))
    (hok : checker.checkExpr supply signatures e = (.ok out, log)) : ∃ s : State,
      s.context = (checker.inferring supply signatures e).2 ∧ s.Ready ∧ ∀ n ∈ out.typed.nodes, ∃ n', n = s.subst.applyExpr n' ∧ P s n' := by
  obtain ⟨s, hcontext, hs, hnodes⟩ := inferring_pervaded hglobals hdefaults hP
  rw [checkExpr_eq] at hok
  obtain ⟨htree, -, -⟩ := exported_ok hok
  refine ⟨s, hcontext, hs, ?_⟩
  rw [htree, Substitution.nodes_applyExpr, State.subst, hcontext]
  exact List.forall_mem_map.mpr fun n hn => ⟨n, rfl, hnodes n hn⟩

theorem checkExpr_stems (hglobals : ∀ scheme ∈ checker.globals.schemes, scheme.Within supply)
    (hdefaults : ∀ t, checker.registry.IsDefault t → t.isGround = true ∧ t.Ordered)
    (hok : checker.checkExpr supply signatures e = (.ok out, log)) (hacyclic : (checker.inferring supply signatures e).2.subst.Acyclic) :
    let final := (checker.inferring supply signatures e).2
    ∀ n ∈ out.typed.nodes, ∃ env e' c, Scoped checker.globals e env e' ∧ Yields (checker.session signatures) env e' c n final ∧
      n.effects = final.subst.applyEffects ((inferExpr (checker.session signatures) env e').run c).1.effects := by
  obtain ⟨s, hcontext, hs, hstems⟩ := checkExpr_pervaded hglobals hdefaults (State.rooted_stems _ _) hok
  rw [← hcontext] at hacyclic ⊢
  intro final n hn
  obtain ⟨n, rfl, env, e', c, hsite, hyields, hwithin⟩ := hstems n hn
  refine ⟨env, e', c, hsite, hyields.applyExpr, ?_⟩
  rw [Substitution.effects_applyExpr]
  exact (hyields.tree.effects hacyclic hs.unifier.within.ordered hwithin.1).2

end Checker

end RowTyping
