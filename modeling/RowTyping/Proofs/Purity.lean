import RowTyping.Proofs.Provenance

namespace RowTyping

namespace Effects

structure IsEmptyRow (e : Effects) : Prop where
  impure : e.isPure = false
  labels : e.labels = []
  tail : e.tail = none

theorem not_isEmptyRow_none : ¬ IsEmptyRow none :=
  fun h => nomatch h.impure

theorem isEmptyRow_some {row : Row} : IsEmptyRow (some row) ↔ row.fields = [] ∧ row.rest = none :=
  ⟨fun h => ⟨List.map_eq_nil_iff.mp h.labels, h.tail⟩, fun h => ⟨rfl, List.map_eq_nil_iff.mpr h.1, h.2⟩⟩

theorem not_isEmptyRow_normalize (e : Effects) : ¬ (normalize e).IsEmptyRow := by
  rw [normalize]
  split
  · exact not_isEmptyRow_none
  next hany =>
    intro h
    cases e with
    | none => exact not_isEmptyRow_none h
    | some row =>
        obtain ⟨hfields, hrest⟩ := isEmptyRow_some.mp h
        exact hany (by simp [Row.isClosed, Row.isEmpty, hfields, hrest])

end Effects

namespace Substitution

variable {s : Substitution} {e : Effects}

def Closes (s : Substitution) (r : RowVarId) : Prop :=
  s.applyRow (.openEffects [] r) = .closedEffects []

theorem applyRow_eq_empty_iff (row : Row) : (s.applyRow row).fields = [] ∧ (s.applyRow row).rest = none ↔
    row.fields = [] ∧ ∀ r ∈ row.rest, s.Closes r := by
  obtain ⟨k, fs, rest⟩ := row
  simp only [Closes, applyRow]
  cases s.depth with
  | zero => cases rest <;> simp [chaseRow, Row.openEffects, Row.closedEffects]
  | succ n =>
      simp only [chaseRow_succ]
      cases rest with
      | none => simp [Ty.substRow_closed, OrderedMap.mapValues]
      | some r =>
          cases hr : s.assignedRow (s.chaseRow n) r with
          | none => simp [Ty.substRow_free hr, Row.openEffects, Row.closedEffects]
          | some tail =>
              have hopen : Ty.substRow (s.assigned (s.chase n)) (s.assignedRow (s.chaseRow n)) (.openEffects [] r) =
                  ⟨.effectRow, OrderedMap.merge [] tail.fields, tail.rest⟩ := Ty.substRow_bound hr
              have hclosed : Row.closedEffects [] = ⟨.effectRow, [], none⟩ := rfl
              simp [Ty.substRow_bound hr, hopen, hclosed, OrderedMap.merge_eq_nil_iff, OrderedMap.mapValues, and_assoc]

theorem isEmptyRow_applyEffects_iff : (s.applyEffects e).IsEmptyRow ↔
    e.isPure = false ∧ e.labels = [] ∧ ∀ r ∈ e.tail, s.Closes r := by
  cases e with
  | none => exact iff_of_false Effects.not_isEmptyRow_none fun h => nomatch h.1
  | some row =>
      refine Effects.isEmptyRow_some.trans ((applyRow_eq_empty_iff row).trans ?_)
      exact ⟨fun h => ⟨rfl, List.map_eq_nil_iff.mpr h.1, h.2⟩, fun h => ⟨List.map_eq_nil_iff.mp h.2.1, h.2.2⟩⟩

theorem isEmptyRow_applyEffects_of_not (he : ¬ e.IsEmptyRow) : (s.applyEffects e).IsEmptyRow ↔
    e.labels = [] ∧ ∃ r, e.tail = some r ∧ s.Closes r := by
  rw [isEmptyRow_applyEffects_iff]
  constructor
  · rintro ⟨himpure, hlabels, htail⟩
    cases hr : e.tail with
    | none => exact absurd ⟨himpure, hlabels, hr⟩ he
    | some r => exact ⟨hlabels, r, rfl, htail r hr⟩
  · rintro ⟨hlabels, r, hr, hcloses⟩
    refine ⟨?_, hlabels, fun r' hr' => Option.some.inj (hr.symm.trans hr') ▸ hcloses⟩
    cases e with
    | none => cases hr
    | some row => rfl

end Substitution

namespace InferM

section Normalized

structure Normalizes (m : InferM TypedExpr) : Prop where
  normal : ∀ c, Ensures m c fun n _ => ¬ n.effects.IsEmptyRow

variable {α : Type} {m : InferM TypedExpr}

theorem normalizes_pure {n : TypedExpr} (h : ¬ n.effects.IsEmptyRow) : Normalizes (pure n) :=
  ⟨fun _ => h⟩

theorem normalizes_after {m : InferM α} {f : α → InferM TypedExpr} (h : ∀ a, Normalizes (f a)) : Normalizes (m >>= f) :=
  ⟨fun _ => (h _).normal _⟩

theorem Normalizes.bind {f : TypedExpr → InferM TypedExpr} (hm : Normalizes m)
    (hf : ∀ e, ¬ e.effects.IsEmptyRow → Normalizes (f e)) : Normalizes (m >>= f) :=
  ⟨fun c => (hm.normal c).bind fun e c' he => (hf e he).normal c'⟩

theorem Normalizes.noted (h : Normalizes m) (e : Expr) : Normalizes (noted e m) :=
  ⟨fun c => (h.normal c).noted fun _ _ he => he⟩

theorem joinEffects_normalized (node : NodeId) (rows : List Effects) (c : Context) :
    Ensures (joinEffects node rows) c fun e _ => ¬ e.IsEmptyRow := by
  apply ensures_get
  dsimp only
  split
  · exact .intro (Effects.not_isEmptyRow_normalize _)
  · exact .intro (Effects.not_isEmptyRow_normalize _)

theorem normalizes_joined {node : NodeId} {rows : List Effects} {f : Effects → InferM TypedExpr}
    (h : ∀ effects, ¬ effects.IsEmptyRow → Normalizes (f effects)) : Normalizes (joinEffects node rows >>= f) :=
  ⟨fun c => (joinEffects_normalized node rows c).bind fun effects c' heffects => (h effects heffects).normal c'⟩

theorem normalizes_ite {p : Prop} [Decidable p] {m m' : InferM TypedExpr} (h : Normalizes m) (h' : Normalizes m') :
    Normalizes (if p then m else m') :=
  ⟨fun c => ensures_ite (fun _ => h.normal c) fun _ => h'.normal c⟩

theorem normalizes_variableUse (env : Env) (id : NodeId) (name : String) : Normalizes (variableUse env id name) := by
  rw [variableUse]
  split
  · exact normalizes_after fun _ => normalizes_pure Effects.not_isEmptyRow_none
  · refine normalizes_after fun _ => ?_
    exact normalizes_after fun _ => normalizes_pure Effects.not_isEmptyRow_none

theorem normalizes_joining {node : NodeId} {rows : List Effects} {f : Effects → TypedExpr} (h : ∀ effects, (f effects).effects = effects) :
    Normalizes (joinEffects node rows >>= fun effects => pure (f effects)) :=
  normalizes_joined fun effects heffects => normalizes_pure ((h effects).symm ▸ heffects)

theorem normalizes_inferExpr (session : Session) (env : Env) (e : Expr) : Normalizes (inferExpr session env e) := by
  cases e with refine .noted ?_ _
  | lit => exact normalizes_after fun _ => normalizes_pure Effects.not_isEmptyRow_none
  | var => exact normalizes_variableUse ..
  | lambda => exact normalizes_after fun _ => normalizes_pure Effects.not_isEmptyRow_none
  | app =>
      refine normalizes_after fun _ => ?_
      exact normalizes_joining fun _ => rfl
  | letIn =>
      refine normalizes_after fun _ => ?_
      refine normalizes_after fun _ => ?_
      exact normalizes_joining fun _ => rfl
  | letRec =>
      refine normalizes_after fun _ => ?_
      refine normalizes_after fun _ => ?_
      exact normalizes_joining fun _ => rfl
  | cond =>
      refine normalizes_after fun _ => ?_
      exact normalizes_joining fun _ => rfl
  | binary =>
      refine normalizes_after fun _ => ?_
      refine normalizes_after fun _ => ?_
      refine normalizes_joined fun _ h => ?_
      exact normalizes_ite (normalizes_after fun _ => normalizes_pure h) (normalizes_after fun _ => normalizes_pure h)
  | unary _ op e =>
      refine (normalizes_inferExpr session env e).bind fun _ h => ?_
      cases op <;> exact normalizes_after fun _ => normalizes_pure h
  | record =>
      refine normalizes_after fun _ => ?_
      exact normalizes_joining fun _ => rfl
  | field _ e =>
      refine (normalizes_inferExpr session env e).bind fun _ h => ?_
      exact normalizes_after fun _ => normalizes_pure h
  | update =>
      refine normalizes_after fun _ => ?_
      refine normalizes_after fun _ => ?_
      refine normalizes_after fun _ => normalizes_ite ?_ ?_
      · refine normalizes_after fun _ => ?_
        refine normalizes_after fun _ => ?_
        exact normalizes_joining fun _ => rfl
      · refine normalizes_after fun _ => ?_
        exact normalizes_joining fun _ => rfl
  | list =>
      refine normalizes_after fun _ => ?_
      refine normalizes_after fun _ => ?_
      exact normalizes_joining fun _ => rfl
  | tuple =>
      refine normalizes_after fun _ => ?_
      exact normalizes_joining fun _ => rfl
  | caseOf =>
      refine normalizes_after fun _ => ?_
      exact normalizes_joining fun _ => rfl

end Normalized

end InferM

namespace Checker

open InferM

variable {checker : Checker} {supply : Supply} {signatures : EffectSignatures} {e : Expr} {out : CheckedExpr} {log : List Event}

theorem checkExpr_purity (hglobals : ∀ scheme ∈ checker.globals.schemes, scheme.Within supply)
    (hdefaults : ∀ t, checker.registry.IsDefault t → t.isGround = true ∧ t.Ordered)
    (hok : checker.checkExpr supply signatures e = (.ok out, log)) (hacyclic : (checker.inferring supply signatures e).2.subst.Acyclic) :
    let final := (checker.inferring supply signatures e).2
    ∀ n ∈ out.typed.nodes, ∃ env e' c, Scoped checker.globals e env e' ∧ Yields (checker.session signatures) env e' c n final ∧
      let row := ((inferExpr (checker.session signatures) env e').run c).1.effects
      ¬ row.IsEmptyRow ∧ n.effects = final.subst.applyEffects row ∧
        (n.effects.IsEmptyRow ↔ row.labels = [] ∧ ∃ r, row.tail = some r ∧ final.subst.Closes r) := by
  intro final n hn
  obtain ⟨env, e', c, hscoped, hyields, heffects⟩ := checkExpr_stems hglobals hdefaults hok hacyclic n hn
  have hrow := (normalizes_inferExpr (checker.session signatures) env e').normal c
  refine ⟨env, e', c, hscoped, hyields, hrow, heffects, ?_⟩
  rw [heffects]
  exact Substitution.isEmptyRow_applyEffects_of_not hrow

-- The call of `f` has a tail when it is inferred, and the effects of `f` are closed by the other branch.
theorem exists_closed_tail :
    let e : Expr := .lambda 7 ["f"]
      (.cond 6 (.app 2 (.var 0 "f") [.lit 1 (.int 1)]) (.var 3 "f") (.lambda 5 ["x"] (.lit 4 (.bool true))))
    ∃ checker counters events out log, Checker.build .default .prelude ⟨0, 0⟩ = (.ok (checker, counters), events) ∧
      (∀ scheme ∈ checker.globals.schemes, scheme.Within ⟨1024, 1024⟩) ∧
      (∀ t, checker.registry.IsDefault t → t.isGround = true ∧ t.Ordered) ∧
      checker.checkExpr ⟨1024, 1024⟩ [] e = (.ok out, log) ∧ (checker.inferring ⟨1024, 1024⟩ [] e).2.subst.Acyclic ∧
      ∃ n ∈ out.typed.nodes, n.id = 6 ∧ n.effects = .closed [] := by
  intro e
  obtain ⟨checker, counters, events, hbuild, hchecker, hglobals, hdefaults⟩ := exists_prelude
  obtain ⟨out, log, hok, hnode⟩ := exists_ok_of_any (x := checker.checkExpr ⟨1024, 1024⟩ [] e)
    (P := fun out => ∃ n ∈ out.typed.nodes, n.id = 6 ∧ n.effects = .closed []) (by rw [hchecker]; cbv)
  have hranked : (checker.inferring ⟨1024, 1024⟩ [] e).2.subst.Ranked
      fun v => if v = .type 1024 then 2 else if v = .row 1024 ∨ v = .type 1025 then 1 else 0 := by
    rw [hchecker]
    decide_cbv
  exact ⟨checker, counters, events, out, log, hbuild, hglobals, hdefaults, hok, hranked.acyclic, hnode⟩

theorem checkExpr_purity_cond :
    let e : Expr := .lambda 7 ["f"]
      (.cond 6 (.app 2 (.var 0 "f") [.lit 1 (.int 1)]) (.var 3 "f") (.lambda 5 ["x"] (.lit 4 (.bool true))))
    ∃ checker counters events out log, Checker.build .default .prelude ⟨0, 0⟩ = (.ok (checker, counters), events) ∧
      checker.checkExpr ⟨1024, 1024⟩ [] e = (.ok out, log) ∧
      let final := (checker.inferring ⟨1024, 1024⟩ [] e).2
      ∀ n ∈ out.typed.nodes, ∃ env e' c, Scoped checker.globals e env e' ∧ Yields (checker.session []) env e' c n final ∧
        let row := ((inferExpr (checker.session []) env e').run c).1.effects
        ¬ row.IsEmptyRow ∧ n.effects = final.subst.applyEffects row ∧
          (n.effects.IsEmptyRow ↔ row.labels = [] ∧ ∃ r, row.tail = some r ∧ final.subst.Closes r) := by
  intro e
  obtain ⟨checker, counters, events, out, log, hbuild, hglobals, hdefaults, hok, hacyclic, -⟩ := exists_closed_tail
  exact ⟨checker, counters, events, out, log, hbuild, hok, checkExpr_purity hglobals hdefaults hok hacyclic⟩

theorem checkExpr_purity_lost :
    let e : Expr := .lambda 7 ["f"]
      (.cond 6 (.app 2 (.var 0 "f") [.lit 1 (.int 1)]) (.var 3 "f") (.lambda 5 ["x"] (.lit 4 (.bool true))))
    ∃ checker counters events out log, Checker.build .default .prelude ⟨0, 0⟩ = (.ok (checker, counters), events) ∧
      checker.checkExpr ⟨1024, 1024⟩ [] e = (.ok out, log) ∧
      ∃ n ∈ out.typed.nodes, n.id = 6 ∧ n.effects.labels = [] ∧ n.effects.tail = none ∧ n.effects.isPure = false := by
  intro e
  obtain ⟨checker, counters, events, out, log, hbuild, -, -, hok, -, n, hn, hid, heffects⟩ := exists_closed_tail
  exact ⟨checker, counters, events, out, log, hbuild, hok, n, hn, hid, heffects ▸ ⟨rfl, rfl, rfl⟩⟩

end Checker

end RowTyping
