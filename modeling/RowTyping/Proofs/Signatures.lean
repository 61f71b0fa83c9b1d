import RowTyping.Proofs.Numbering
import RowTyping.Proofs.Purity
import RowTyping.Proofs.Subsumption

namespace RowTyping

namespace InferM

variable {c : Context} {names : List String} {declared actual : Effects}

def misfit (node : NodeId) (actual declared : Effects) (path : SourcePath) : Diagnostic :=
  (UnifyError.rows .effectRow [] (actual.labels.filter fun l => !declared.labels.contains l)).diagnostic (Effects.text declared)
    (Effects.text actual) ⟨node, path, .declaredEffects⟩

theorem checkSignature_closed (node : NodeId) {body declared : Effects} (hclosed : (c.flush.subst.applyEffects body).tail = none) :
    ((checkSignature node body declared).run c).2 = if Effects.subsumed (c.flush.subst.applyEffects body) declared then c.flush
      else c.flush.report node (misfit node (c.flush.subst.applyEffects body) declared c.flush.path) := by
  have hensures : Ensures (checkSignature node body declared) c fun _ c' =>
      c' = if Effects.subsumed (c.flush.subst.applyEffects body) declared then c.flush
        else c.flush.report node (misfit node (c.flush.subst.applyEffects body) declared c.flush.path) := by
    refine ensures_flush (ensures_get (ensures_ite (fun hopen => ?_) fun _ => ensures_ite (fun hmisfit => ?_) fun hfits => ?_))
    · rw [hclosed] at hopen
      cases hopen
    · rw [if_neg (by simpa using hmisfit)]
      rfl
    · exact ensures_pure (if_pos (by simpa using hfits)).symm
  exact hensures

theorem not_subsumed_elaborate_iff (hdeclared : Effects.elaborate names = .ok declared) (hclosed : actual.tail = none) :
    ¬ Effects.subsumed actual declared = true ↔
      (∃ l ∈ actual.labels, l ∉ declared.labels) ∨ names = [] ∧ actual.IsEmptyRow := by
  obtain ⟨hpure, -, htail, hlabels⟩ := Effects.ofLabels_elaborate hdeclared
  rw [Effects.subsumed_iff, hpure]
  constructor
  · intro h
    by_cases hfit : ∀ l ∈ actual.labels, l ∈ declared.labels
    · have himpure : names = [] ∧ actual.isPure = false := by
        by_contra hnot
        exact h ⟨fun hnil => by simpa [hnil] using hnot, fun _ => ⟨hclosed, hfit⟩⟩
      obtain ⟨rfl, himpure⟩ := himpure
      have hnone : actual.labels = [] := List.eq_nil_iff_forall_not_mem.mpr fun l hl => List.not_mem_nil ((hlabels l).mp (hfit l hl))
      exact .inr ⟨rfl, himpure, hnone, hclosed⟩
    · exact .inl (by simpa using hfit)
  · rintro (⟨l, hl, hextra⟩ | ⟨hnil, himpure, -, -⟩) ⟨hfits, hfit⟩
    · exact hextra ((hfit htail).2 l hl)
    · rw [hfits hnil] at himpure
      cases himpure

theorem errors_report_ne (node : NodeId) (d : Diagnostic) (c : Context) : (c.report node d).errors ≠ c.errors :=
  fun h => List.cons_ne_nil _ _ (List.append_right_eq_self.mp h)

theorem checkSignature_reports (hdeclared : Effects.elaborate names = .ok declared) (node : NodeId) (body : Effects) (c : Context)
    (hclosed : (c.flush.subst.applyEffects body).tail = none) :
    let actual := c.flush.subst.applyEffects body
    let c' := ((checkSignature node body declared).run c).2
    (c' = c.flush ∨ c' = c.flush.report node (misfit node actual declared c.flush.path)) ∧
    (c'.errors ≠ c.flush.errors ↔ (∃ l ∈ actual.labels, l ∉ declared.labels) ∨ names = [] ∧ actual.IsEmptyRow) ∧
    (¬ body.IsEmptyRow → (actual.IsEmptyRow ↔ body.labels = [] ∧ ∃ r, body.tail = some r ∧ c.flush.subst.Closes r)) := by
  intro actual c'
  have hrun : c' = if Effects.subsumed actual declared then c.flush else c.flush.report node (misfit node actual declared c.flush.path) :=
    checkSignature_closed node hclosed
  rw [← not_subsumed_elaborate_iff hdeclared hclosed]
  refine ⟨?_, ?_, Substitution.isEmptyRow_applyEffects_of_not⟩
  · rw [hrun]
    exact ite_eq_or_eq ..
  · by_cases hfits : Effects.subsumed actual declared = true
    · rw [hrun, if_pos hfits]
      exact iff_of_false (fun h => h rfl) fun h => h hfits
    · rw [hrun, if_neg hfits]
      exact iff_of_true (errors_report_ne _ _ _) hfits

theorem checkSignature_reports_pending :
    let c := (Context.ofSupply ⟨0, 1⟩).addEquation 0 .effectJoin (.rows (.closedEffects ["Net"]) (.openEffects [] 0))
    let actual := c.flush.subst.applyEffects (.opened ["IO"] 0)
    actual = .closed ["IO", "Net"] ∧ ∃ declared, Effects.elaborate ["IO"] = .ok declared ∧
      ((checkSignature 0 (.opened ["IO"] 0) declared).run c).2.errors ≠ c.flush.errors := by
  intro c actual
  have hactual : actual = .closed ["IO", "Net"] := by decide +kernel
  have hdeclared : Effects.elaborate ["IO"] = .ok (.closed ["IO"]) := by decide +kernel
  have hclosed : actual.tail = none := hactual ▸ rfl
  have hnet : "Net" ∈ actual.labels := hactual ▸ (by decide)
  obtain ⟨-, hreports, -⟩ := checkSignature_reports hdeclared 0 (.opened ["IO"] 0) c hclosed
  exact ⟨hactual, _, hdeclared, hreports.mpr (.inl ⟨"Net", hnet, by decide⟩)⟩

end InferM

namespace Checker

open InferM

theorem checkExpr_refuses_empty :
    let body : Expr := .cond 6 (.app 2 (.var 0 "f") [.lit 1 (.int 1)]) (.var 3 "f") (.lambda 5 ["x"] (.lit 4 (.bool true)))
    ∃ checker counters events ds log, Checker.build .default .prelude ⟨0, 0⟩ = (.ok (checker, counters), events) ∧
      checker.checkExpr ⟨1024, 1024⟩ [(7, [])] (.lambda 7 ["f"] body) = (.error (.type ds), log) ∧
      ds.map (fun d => (d.category, d.expected, d.actual, d.diff)) = [(.effectMismatch, some "pure", some "[]", [])] ∧
      let entered := (freshTypeVar.run (checker.context ⟨1024, 1024⟩)).2
      let x := (inferExpr (checker.session []) (checker.globals.nest [("f", .mono (.ofVar 1024))]) body).run entered
      let actual := x.2.flush.subst.applyEffects x.1.effects
      actual.tail = none ∧ (∀ l ∈ actual.labels, l ∈ Effects.labels none) ∧
        x.2.flush.errors = [] ∧ ((checkSignature 7 x.1.effects none).run x.2).2.errors ≠ [] := by
  intro body
  obtain ⟨checker, counters, events, hbuild, hchecker, -⟩ := exists_prelude
  obtain ⟨ds, log, hfails, hds⟩ := exists_type_of_any (x := checker.checkExpr ⟨1024, 1024⟩ [(7, [])] (.lambda 7 ["f"] body))
    (P := fun ds => ds.map (fun d => (d.category, d.expected, d.actual, d.diff)) = [(.effectMismatch, some "pure", some "[]", [])])
    (by rw [hchecker]; cbv)
  refine ⟨checker, counters, events, ds, log, hbuild, hfails, hds, ?_⟩
  rw [hchecker]
  decide +kernel

end Checker

end RowTyping
