import Mathlib
import RowTyping.Proofs.Elaboration
import RowTyping.Proofs.Soundness

namespace RowTyping

theorem Ty.explicit_eq_fn {t r : Ty} {ps : List Ty} {e : Effects} (h : t.explicit = .fn ps e r) :
    ∃ ps' e' r', t = .fn ps' e' r' ∧ e = Effects.value .identity e' := by
  cases t with
  | fn ps' e' r' =>
      rw [Ty.explicit, Ty.value_fn] at h
      obtain ⟨-, rfl, -⟩ := Ty.fn.inj h
      exact ⟨ps', e', r', rfl, rfl⟩
  | _ => cases h

theorem Effects.boundedBy_explicit {e : Effects} {names : List Label} (h : (e.value .identity).BoundedBy names) :
    e.BoundedBy names :=
  ⟨tail_explicit e ▸ h.tail, fun l hl => h.labels l ((labels_explicit e l).mpr hl)⟩

theorem gathers_of_explicit {e : TypedExpr} (h : e.Gathers Ty.explicit (Effects.value .identity)) : e.Gathers id id := by
  refine ⟨fun c hc => Effects.includes_explicit.mp (h.parts c hc), fun func hfunc => ?_⟩
  obtain ⟨_, _, _, hty, hincludes⟩ := h.call func hfunc
  obtain ⟨ps, latent, r, hfn, rfl⟩ := Ty.explicit_eq_fn hty
  exact ⟨ps, latent, r, hfn, Effects.includes_explicit.mp hincludes⟩

theorem signed_of_explicit {signatures : EffectSignatures} {e : TypedExpr}
    (h : e.Signed signatures (Effects.value .identity)) :
    e.Signed signatures id := by
  cases e with
  | lambda i params body => exact fun names hnames => (h names hnames).imp_right (.imp_right Effects.boundedBy_explicit)
  | _ => trivial

theorem Substitution.Acyclic.value_assignment_effects {s : Substitution} (h : s.Acyclic) (hs : s.Ordered) {e : Effects}
    (he : e.toRow.Ordered) : e.value s.assignment = (s.applyEffects e).value .identity := by
  cases e with
  | none => rfl
  | some row => exact congrArg some (h.value_assignment_row hs he)

namespace State

variable {s : State} {session : Session} {sites : Sites} {n : TypedExpr}

theorem NodeTyped.gathers_applyExpr (hs : s.Ready) (haccepts : s.Accepts s.subst.assignment) (hacyclic : s.subst.Acyclic)
    (hn : s.NodeTyped session sites n) : (s.subst.applyExpr n).Gathers id id :=
  have hord := hs.unifier.within.ordered
  gathers_of_explicit <| Substitution.gathers_applyExpr _ <| (hn.gathers _ haccepts).congr
    (fun t ht => hacyclic.value_assignment hord (hn.within t ht).1)
    fun e he => hacyclic.value_assignment_effects hord (hn.rows e he).1

theorem NodeTyped.signed_applyExpr (hs : s.Ready) (haccepts : s.Accepts s.subst.assignment) (hacyclic : s.subst.Acyclic)
    (hn : s.NodeTyped session sites n) : (s.subst.applyExpr n).Signed session.signatures id :=
  signed_of_explicit <| Substitution.signed_applyExpr _ <| (hn.signed _ haccepts).congr
    fun e he => hacyclic.value_assignment_effects hs.unifier.within.ordered (hn.rows e he).1

end State

namespace Checker

open InferM

variable {checker : Checker} {supply : Supply}

theorem globals_within {config : Config} {counters counters' : Counters} {events : List Event}
    (hbuild : Checker.build config .prelude counters = (.ok (checker, counters'), events))
    (htypes : counters'.nextType ≤ supply.nextType) (hrowVars : counters'.nextRow ≤ supply.nextRow) :
    ∀ scheme ∈ checker.globals.schemes, scheme.Within supply := fun scheme hscheme => by
  have howned := ownsEnv_build hbuild htypes hrowVars (State.ready_start (l := none) nofun) nofun scheme hscheme
  have hsupply := (State.context_start checker supply none).2.1
  exact ⟨hsupply ▸ howned.ty.within, hsupply ▸ howned.predicates, hsupply ▸ howned.rowVars⟩

theorem exists_prelude : ∃ checker counters events, Checker.build .default .prelude ⟨0, 0⟩ = (.ok (checker, counters), events) ∧
    checker = ⟨.default, { (buildRegistry .default .prelude).2 with moduleDefault := Provider.prelude.moduleDefault }.freeze,
      Env.empty.bindAll (Provider.prelude.values (Counters.allocate ⟨0, 0⟩).1).1⟩ ∧
    (∀ scheme ∈ checker.globals.schemes, scheme.Within ⟨1024, 1024⟩) ∧
      ∀ t, checker.registry.IsDefault t → t.isGround = true ∧ t.Ordered := by
  obtain ⟨⟨checker, counters⟩, events, hbuild, -⟩ :=
    exists_ok_of_any (x := Checker.build .default .prelude ⟨0, 0⟩) (P := fun _ => True) (by decide)
  obtain ⟨hchecker, rfl⟩ := Checker.build_ok hbuild
  refine ⟨checker, _, events, hbuild, hchecker, globals_within hbuild (by decide) (by decide), fun t ht => ?_⟩
  rcases Registry.isDefault_prelude hbuild ht with rfl | rfl <;> exact ⟨rfl, fun _ hr => absurd hr Ty.mem_rows_con⟩

theorem inferring_ready (hglobals : ∀ scheme ∈ checker.globals.schemes, scheme.Within supply)
    (hdefaults : ∀ t, checker.registry.IsDefault t → t.isGround = true ∧ t.Ordered) (signatures : EffectSignatures) (e : Expr) :
    ∃ s : State, s.context = (checker.inferring supply signatures e).2 ∧ s.Ready ∧
      s.Inferred (checker.session signatures) (Scoped checker.globals e) (checker.inferring supply signatures e).1 := by
  have hkeeps := keeps_inferring (State.ready_start (l := none) nofun) (ownsEnv_start hglobals) (supports_start hdefaults signatures) e
  rw [InferM.Keeps, run_start] at hkeeps
  generalize checker.inferring supply signatures e = out at *
  obtain ⟨l, -, hready, -, htyped⟩ := hkeeps
  exact ⟨⟨out.2, l⟩, rfl, hready, htyped⟩

variable {signatures : EffectSignatures} {e : Expr} {out : CheckedExpr} {log : List Event}

theorem checkExpr_nodes (hglobals : ∀ scheme ∈ checker.globals.schemes, scheme.Within supply)
    (hdefaults : ∀ t, checker.registry.IsDefault t → t.isGround = true ∧ t.Ordered)
    (hok : checker.checkExpr supply signatures e = (.ok out, log)) (hacyclic : (checker.inferring supply signatures e).2.subst.Acyclic) :
    ∃ s : State, s.context = (checker.inferring supply signatures e).2 ∧ s.Ready ∧ s.Accepts s.subst.assignment ∧
      ∀ n ∈ out.typed.nodes, ∃ n', n = s.subst.applyExpr n' ∧ s.NodeTyped (checker.session signatures) (Scoped checker.globals e) n' := by
  obtain ⟨s, hcontext, hs, htyped⟩ := inferring_ready hglobals hdefaults signatures e
  have hequations := inferring_equations checker supply signatures e
  rw [checkExpr_eq] at hok
  generalize checker.inferring supply signatures e = x at *
  obtain ⟨typed, c⟩ := x
  obtain rfl : c = s.context := hcontext.symm
  obtain ⟨htree, herrors, -⟩ := exported_ok hok
  refine ⟨s, rfl, hs, hs.accepts_assignment hacyclic herrors hequations, ?_⟩
  rw [htree, Substitution.nodes_applyExpr]
  exact List.forall_mem_map.mpr fun n hn => ⟨n, rfl, htyped.nodes n hn⟩

theorem checkExpr_gathers (hglobals : ∀ scheme ∈ checker.globals.schemes, scheme.Within supply)
    (hdefaults : ∀ t, checker.registry.IsDefault t → t.isGround = true ∧ t.Ordered)
    (hok : checker.checkExpr supply signatures e = (.ok out, log)) (hacyclic : (checker.inferring supply signatures e).2.subst.Acyclic) :
    ∀ n ∈ out.typed.nodes, (∀ c ∈ n.evaluated, n.effects.Includes c.effects) ∧
      ∀ func ∈ n.callee?, ∃ ps latent r, func.ty = .fn ps latent r ∧ n.effects.Includes latent := by
  obtain ⟨s, hcontext, hs, haccepts, hnodes⟩ := checkExpr_nodes hglobals hdefaults hok hacyclic
  rw [← hcontext] at hacyclic
  intro n hn
  obtain ⟨n, rfl, htyped⟩ := hnodes n hn
  have hgathers := htyped.gathers_applyExpr hs haccepts hacyclic
  exact ⟨hgathers.parts, hgathers.call⟩

theorem checkExpr_gathers_joined :
    let e : Expr := .lambda 0 ["f", "g"] (.cond 1 (.app 2 (.var 3 "f") [.lit 4 (.int 1)]) (.app 5 (.var 6 "g") [.lit 7 (.int 2)])
      (.app 8 (.var 9 "fetch") [.lit 10 (.string "a")]))
    ∃ checker counters events out log, Checker.build .default .prelude ⟨0, 0⟩ = (.ok (checker, counters), events) ∧
      checker.checkExpr ⟨1024, 1024⟩ [] e = (.ok out, log) ∧
      ∀ n ∈ out.typed.nodes, (∀ c ∈ n.evaluated, n.effects.Includes c.effects) ∧
        ∀ func ∈ n.callee?, ∃ ps latent r, func.ty = .fn ps latent r ∧ n.effects.Includes latent := by
  intro e
  obtain ⟨checker, counters, events, hbuild, hchecker, hglobals, hdefaults⟩ := exists_prelude
  obtain ⟨out, log, hok, -⟩ :=
    exists_ok_of_any (x := checker.checkExpr ⟨1024, 1024⟩ [] e) (P := fun _ => True) (by rw [hchecker]; cbv)
  have hranked : (checker.inferring ⟨1024, 1024⟩ [] e).2.subst.Ranked
      fun v => if v = .type 1024 ∨ v = .type 1025 then 2 else if v = .row 1024 then 1 else 0 := by
    rw [hchecker]
    decide_cbv
  exact ⟨checker, counters, events, out, log, hbuild, hok, checkExpr_gathers hglobals hdefaults hok hranked.acyclic⟩

theorem checkExpr_signed (hglobals : ∀ scheme ∈ checker.globals.schemes, scheme.Within supply)
    (hdefaults : ∀ t, checker.registry.IsDefault t → t.isGround = true ∧ t.Ordered)
    (hok : checker.checkExpr supply signatures e = (.ok out, log)) (hacyclic : (checker.inferring supply signatures e).2.subst.Acyclic) :
    ∀ i params body, .lambda i params body ∈ out.typed.nodes → ∀ names ∈ signatures.find? i.id,
      (∀ name ∈ names, Effects.isKnown name = true) ∧
        (∃ ps declared r, Effects.elaborate names = .ok declared ∧ i.ty = .fn ps declared r) ∧ body.effects.BoundedBy names := by
  obtain ⟨s, hcontext, hs, haccepts, hnodes⟩ := checkExpr_nodes hglobals hdefaults hok hacyclic
  rw [← hcontext] at hacyclic
  intro i params body hn
  obtain ⟨n, heq, htyped⟩ := hnodes _ hn
  have hsigned := htyped.signed_applyExpr hs haccepts hacyclic
  rw [← heq] at hsigned
  exact hsigned

theorem checkExpr_signed_open :
    let e : Expr := .lambda 0 ["f"] (.lambda 1 ["u"] (.app 2 (.var 3 "f") [.app 4 (.var 5 "sleep") [.lit 6 (.int 1)]]))
    let signatures : EffectSignatures := [(1, ["Async", "Net"])]
    ∃ checker counters events out log, Checker.build .default .prelude ⟨0, 0⟩ = (.ok (checker, counters), events) ∧
      checker.checkExpr ⟨1024, 1024⟩ signatures e = (.ok out, log) ∧ out.typed.nodes.map TypedExpr.id = [0, 1, 2, 3, 4, 5, 6] ∧
      ∀ i params body, .lambda i params body ∈ out.typed.nodes → ∀ names ∈ signatures.find? i.id,
        (∀ name ∈ names, Effects.isKnown name = true) ∧
          (∃ ps declared r, Effects.elaborate names = .ok declared ∧ i.ty = .fn ps declared r) ∧ body.effects.BoundedBy names := by
  intro e signatures
  obtain ⟨checker, counters, events, hbuild, hchecker, hglobals, hdefaults⟩ := exists_prelude
  obtain ⟨out, log, hok, hnodes⟩ := exists_ok_of_any (x := checker.checkExpr ⟨1024, 1024⟩ signatures e)
    (P := fun out => out.typed.nodes.map TypedExpr.id = [0, 1, 2, 3, 4, 5, 6]) (by rw [hchecker]; cbv)
  have hranked : (checker.inferring ⟨1024, 1024⟩ signatures e).2.subst.Ranked fun v => if v = .type 1024 then 1 else 0 := by
    rw [hchecker]
    decide_cbv
  exact ⟨checker, counters, events, out, log, hbuild, hok, hnodes, checkExpr_signed hglobals hdefaults hok hranked.acyclic⟩

end Checker

end RowTyping
