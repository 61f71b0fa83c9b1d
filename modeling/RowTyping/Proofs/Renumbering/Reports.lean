import RowTyping.Proofs.Renumbering.Display
import RowTyping.Proofs.Renumbering.Runs
import RowTyping.Unify.Report

namespace RowTyping

variable {π : Renumbering}

def Row.written (r : Row) : List Var :=
  if r.isEffect then (r.rest.map Var.row).toList else r.vars

namespace UnifyError

def written : UnifyError → List Var
  | .mismatch e a => e.vars ++ a.vars
  | .occurs _ t => t.vars
  | .rowOccurs _ r => r.written
  | .field _ source => source.written
  | .representation e a => e.vars ++ a.vars
  | _ => []

def numbered : UnifyError → List Var
  | .field _ (.mismatch _ _) => []
  | .field _ source => source.written
  | _ => []

end UnifyError

namespace Goal

def shown : Goal → String × String
  | .types e a => Ty.displayPair e a
  | .rows e a => (e.text, a.text)

def numbered : Goal → List Var
  | .types _ _ => []
  | .rows e a => e.written ++ a.written

end Goal

inductive Report where
  | plain (d : Diagnostic)
  | equation (error : UnifyError) (goal : Goal) (provenance : Provenance)

namespace Report

def diagnostic : Report → Diagnostic
  | .plain d => d
  | .equation e g p => e.diagnostic g.shown.1 g.shown.2 p

def renumber (π : Renumbering) : Report → Report
  | .plain d => .plain d
  | .equation e g p => .equation (e.renumber π) (g.renumber π) p

def numbered : Report → List Var
  | .plain _ => []
  | .equation e g _ => e.numbered ++ g.numbered

end Report

def Diagnostic.outline (d : Diagnostic) : Diagnostic :=
  { d with message := "", expected := none, actual := none, diff := d.diff.map fun f => { f with detail := none } }

section Written

theorem Ty.text_renumber {t : Ty} (h : ∀ v ∈ t.vars, v.renumber π = v) : (t.renumber π).text = t.text := by
  rw [renumber_of_fixed h]

theorem Row.text_renumber {r : Row} (h : ∀ v ∈ r.written, v.renumber π = v) : (r.renumber π).text = r.text := by
  have heffect : (r.renumber π).isEffect = r.isEffect := by rw [isEffect, isEffect, renumber_kind]
  rw [text, text, heffect]
  rw [written] at h
  split
  next hr =>
    rw [if_pos hr] at h
    refine effectsText_renumber fun id hid kind => ?_
    have hfixed : π.row id = id := Var.row.inj (h _ (Option.mem_toList.mpr (Option.mem_map_of_mem Var.row hid)))
    rw [hfixed]
  next hr =>
    rw [if_neg hr] at h
    exact Ty.text_renumber (t := .record r) h

theorem UnifyError.text_renumber {e : UnifyError} (h : ∀ v ∈ e.written, v.renumber π = v) : (e.renumber π).text = e.text := by
  induction e with
  | mismatch e a | representation e a =>
      rw [written, List.forall_mem_append] at h
      change _ ++ (e.renumber π).text ++ _ ++ (a.renumber π).text ++ _ = _
      rw [Ty.text_renumber h.1, Ty.text_renumber h.2]
      rfl
  | occurs v t =>
      change _ ++ (t.renumber π).text ++ _ = _
      rw [Ty.text_renumber h]
      rfl
  | rowOccurs v r =>
      change _ ++ (r.renumber π).text ++ _ = _
      rw [Row.text_renumber h]
      rfl
  | field l source ih =>
      change _ ++ (source.renumber π).text = _
      rw [ih h]
      rfl
  | _ => rfl

end Written

section Diagnostics

theorem UnifyError.outline_unplaced (e : UnifyError) (reason : Reason) :
    ((e.renumber π).unplaced reason).outline = (e.unplaced reason).outline := by
  cases e <;> simp [renumber, unplaced, Diagnostic.outline, Diagnostic.error, Diagnostic.ofSeverity, Diagnostic.withHelp,
    Diagnostic.withDiff, FieldDiff.mismatched]

theorem Report.outline_renumber (r : Report) : (r.renumber π).diagnostic.outline = r.diagnostic.outline := by
  cases r with
  | plain d => rfl
  | equation e g p =>
      exact congrArg (fun d : Diagnostic => d.located p.path (some p.node)) (e.outline_unplaced (π := π) p.reason)

variable (hπ : π.Ascends)

include hπ

theorem UnifyError.fieldDetail_renumber {l : Label} {e : UnifyError} (h : ∀ v ∈ (field l e).numbered, v.renumber π = v) :
    (e.renumber π).fieldDetail = e.fieldDetail := by
  cases e with
  | mismatch e a => rw [renumber, fieldDetail, fieldDetail, Ty.displayPair_renumber hπ]
  | _ => exact text_renumber h

theorem UnifyError.unplaced_renumber {e : UnifyError} (h : ∀ v ∈ e.numbered, v.renumber π = v) (reason : Reason) :
    (e.renumber π).unplaced reason = e.unplaced reason := by
  cases e with
  | mismatch e a => rw [renumber, unplaced, unplaced, Ty.displayPair_renumber hπ]
  | occurs v t => rw [renumber, unplaced, unplaced, ← Ty.renumber_var, Ty.displayPair_renumber hπ]
  | rowOccurs v r => rw [renumber, unplaced, unplaced, ← Ty.renumber_record, Ty.display_renumber hπ]
  | field l source => rw [renumber, unplaced, unplaced, fieldDetail_renumber hπ h]
  | _ => rfl

theorem Goal.shown_renumber {g : Goal} (h : ∀ v ∈ g.numbered, v.renumber π = v) : (g.renumber π).shown = g.shown := by
  cases g with
  | types e a => exact Ty.displayPair_renumber hπ e a
  | rows e a =>
      rw [renumber, shown, shown, Row.text_renumber fun v hv => h v (List.mem_append_left _ hv),
        Row.text_renumber fun v hv => h v (List.mem_append_right _ hv)]

theorem Report.diagnostic_renumber {r : Report} (h : ∀ v ∈ r.numbered, v.renumber π = v) :
    (r.renumber π).diagnostic = r.diagnostic := by
  cases r with
  | plain d => rfl
  | equation e g p =>
      rw [renumber, diagnostic, diagnostic, Goal.shown_renumber hπ fun v hv => h v (List.mem_append_right _ hv),
        UnifyError.diagnostic, UnifyError.diagnostic,
        UnifyError.unplaced_renumber hπ fun v hv => h v (List.mem_append_left _ hv)]

end Diagnostics

end RowTyping
