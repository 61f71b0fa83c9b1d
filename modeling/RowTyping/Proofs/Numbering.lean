import RowTyping.Proofs.EffectSoundness
import RowTyping.Proofs.Renumbering.Checkers

namespace RowTyping

section Laws

variable {π π' : Renumbering}

theorem Goal.renumber_comp (g : Goal) : (g.renumber π).renumber π' = g.renumber (π'.comp π) := by
  cases g with
  | types e a => exact congrArg₂ Goal.types e.renumber_comp a.renumber_comp
  | rows e a => exact congrArg₂ Goal.rows e.renumber_comp a.renumber_comp

theorem UnifyError.renumber_comp (e : UnifyError) : (e.renumber π).renumber π' = e.renumber (π'.comp π) := by
  induction e with
  | mismatch e a => exact congrArg₂ mismatch e.renumber_comp a.renumber_comp
  | occurs v t => exact congrArg (occurs _) t.renumber_comp
  | rowOccurs v r => exact congrArg (rowOccurs _) r.renumber_comp
  | field l source ih => exact congrArg (field l) ih
  | representation e a => exact congrArg₂ representation e.renumber_comp a.renumber_comp
  | _ => rfl

theorem Report.renumber_comp (r : Report) : (r.renumber π).renumber π' = r.renumber (π'.comp π) := by
  cases r with
  | plain d => rfl
  | equation e g p => exact congrArg₂ (equation · · p) e.renumber_comp g.renumber_comp

theorem InvariantViolation.renumber_comp (v : InvariantViolation) : (v.renumber π).renumber π' = v.renumber (π'.comp π) := by
  cases v with
  | nonGroundResolution className t node => exact congrArg (nonGroundResolution className · node) t.renumber_comp
  | nonGroundExport className t node => exact congrArg (nonGroundExport className · node) t.renumber_comp

theorem Row.written_renumber (r : Row) : (r.renumber π).written = r.written.map (Var.renumber π) := by
  have heffect : (r.renumber π).isEffect = r.isEffect := by rw [isEffect, isEffect, renumber_kind]
  rw [written, written, heffect, renumber_rest, vars_renumber]
  split
  · cases r.rest <;> rfl
  · rfl

theorem UnifyError.written_renumber (e : UnifyError) : (e.renumber π).written = e.written.map (Var.renumber π) := by
  induction e with
  | mismatch e a | representation e a => rw [renumber, written, written, e.vars_renumber, a.vars_renumber, List.map_append]
  | occurs v t => exact t.vars_renumber
  | rowOccurs v r => exact r.written_renumber
  | field l source ih => exact ih
  | _ => rfl

theorem UnifyError.numbered_renumber (e : UnifyError) : (e.renumber π).numbered = e.numbered.map (Var.renumber π) := by
  cases e with
  | field l source =>
      cases source with
      | mismatch e a => rfl
      | _ => exact written_renumber _
  | _ => rfl

theorem Report.numbered_renumber (r : Report) : (r.renumber π).numbered = r.numbered.map (Var.renumber π) := by
  cases r with
  | plain d => rfl
  | equation e g p =>
      rw [renumber, numbered, numbered, e.numbered_renumber, List.map_append]
      cases g with
      | types e a => rfl
      | rows e a => rw [Goal.renumber, Goal.numbered, Goal.numbered, e.written_renumber, a.written_renumber, List.map_append]

end Laws

def moved (start start' v : Nat) : Nat :=
  if v < start then v else v - start + start'

section Moved

variable {start start' base v : Nat}

theorem moved_start (k : Nat) : moved start start' (start + k) = start' + k := by
  rw [moved, if_neg (Nat.not_lt.mpr (Nat.le_add_right start k)), Nat.add_sub_cancel_left, Nat.add_comm]

theorem strictMono_moved (h : start ≤ start') : StrictMono (moved start start') := fun a b hab => by
  simp only [moved]
  split <;> split <;> omega

theorem moved_moved (h : base ≤ start) (v : Nat) : moved start start' (moved base start v) = moved base start' v := by
  simp only [moved]
  split <;> split <;> omega

theorem lt_of_moved_lt (h : moved base start v < start) : v < base := by
  rw [moved] at h
  split at h <;> omega

end Moved

namespace Supply

def onto (s s' : Supply) : Renumbering :=
  ⟨moved s.nextType s'.nextType, moved s.nextRow s'.nextRow⟩

def meet (s s' : Supply) : Supply :=
  ⟨min s.nextType s'.nextType, min s.nextRow s'.nextRow⟩

variable {s s' base : Supply}

theorem renders_onto (s s' : Supply) : s.Renders (s.onto s') s' :=
  ⟨fun k => (moved_start k).symm, fun k => (moved_start k).symm⟩

theorem renumber_onto_of_covers {v : Var} (h : s.Covers v) : v.renumber (s.onto s') = v := by
  cases v with
  | type id => exact congrArg Var.type (if_pos h)
  | row id => exact congrArg Var.row (if_pos h)

theorem covers_of_onto {v : Var} (h : s.Covers (v.renumber (base.onto s))) : base.Covers v := by
  cases v with
  | type id => exact lt_of_moved_lt h
  | row id => exact lt_of_moved_lt h

def Precedes (s s' : Supply) : Prop :=
  s.nextType ≤ s'.nextType ∧ s.nextRow ≤ s'.nextRow

instance (s s' : Supply) : Decidable (s.Precedes s') :=
  inferInstanceAs (Decidable (_ ∧ _))

theorem ascends_onto (h : s.Precedes s') : (s.onto s').Ascends :=
  ⟨strictMono_moved h.1, strictMono_moved h.2⟩

theorem onto_comp (h : base.Precedes s) (s' : Supply) : (s.onto s').comp (base.onto s) = base.onto s' :=
  congrArg₂ Renumbering.mk (funext (moved_moved h.1)) (funext (moved_moved h.2))

theorem meet_precedes_left (s s' : Supply) : (s.meet s').Precedes s :=
  ⟨min_le_left _ _, min_le_left _ _⟩

theorem meet_precedes_right (s s' : Supply) : (s.meet s').Precedes s' :=
  ⟨min_le_right _ _, min_le_right _ _⟩

end Supply

namespace Checker

/-- The supply starts above the variables of the builtin values, quantified ones included, and of the default types. -/
structure NumberedBelow (checker : Checker) (supply : Supply) : Prop where
  globals : ∀ scheme ∈ checker.globals.schemes, ∀ v ∈ scheme.vars ++ scheme.quantified, supply.Covers v
  defaults : ∀ t, checker.registry.IsDefault t → ∀ v ∈ t.vars, supply.Covers v

variable {checker : Checker} {s s' : Supply}

theorem NumberedBelow.meet (h : checker.NumberedBelow s) (h' : checker.NumberedBelow s') : checker.NumberedBelow (s.meet s') := by
  have hcovers {v : Var} (hv : s.Covers v) (hv' : s'.Covers v) : (s.meet s').Covers v := by
    cases v with
    | type id => exact lt_min hv hv'
    | row id => exact lt_min hv hv'
  exact ⟨fun scheme hscheme v hv => hcovers (h.globals scheme hscheme v hv) (h'.globals scheme hscheme v hv),
    fun t ht v hv => hcovers (h.defaults t ht v hv) (h'.defaults t ht v hv)⟩

theorem type_mem_vars_prelude {block : Supply} : ∀ b ∈ (Prelude.values block).1, ∀ v ∈ b.2.typeVars, .type v.id ∈ b.2.vars := by
  have hvar (id : TypeVarId) : .type (TypeVar.star id).id ∈ (Ty.ofVar id).vars := List.mem_singleton.mpr rfl
  have hshow (a : TypeVarId) : ∀ v ∈ (Prelude.showScheme a).typeVars, .type v.id ∈ (Prelude.showScheme a).vars := by
    simp [Prelude.showScheme, Scheme.vars, hvar]
  have hlength (a : TypeVarId) : ∀ v ∈ (Prelude.lengthScheme a).typeVars, .type v.id ∈ (Prelude.lengthScheme a).vars := by
    simp [Prelude.lengthScheme, Scheme.vars, hvar]
  have hmap (a b : TypeVarId) (e : RowVarId) : ∀ v ∈ (Prelude.mapScheme a b e).typeVars, .type v.id ∈ (Prelude.mapScheme a b e).vars := by
    simp [Prelude.mapScheme, Scheme.vars, hvar]
  exact List.forall_mem_cons.mpr ⟨List.forall_mem_nil _, List.forall_mem_cons.mpr ⟨hshow _, List.forall_mem_cons.mpr ⟨hlength _,
    List.forall_mem_cons.mpr ⟨hmap _ _ _, by decide⟩⟩⟩⟩

theorem numberedBelow_prelude {config : Config} {counters counters' : Counters} {events : List Event}
    (hbuild : Checker.build config .prelude counters = (.ok (checker, counters'), events))
    (htypes : counters'.nextType ≤ s.nextType) (hrowVars : counters'.nextRow ≤ s.nextRow) : checker.NumberedBelow s := by
  refine ⟨fun scheme hscheme => ?_, fun t ht => ?_⟩
  · obtain ⟨hty, hpredicates, hrows⟩ := globals_within hbuild htypes hrowVars scheme hscheme
    have hvars : ∀ v ∈ scheme.vars, s.Covers v := List.forall_mem_append.mpr
      ⟨hty.2, List.forall_mem_flatMap.mpr fun p hp => (hpredicates p hp).2⟩
    obtain ⟨rfl, -⟩ := Checker.build_ok hbuild
    rcases State.mem_schemes_bindAll hscheme with ⟨b, hb, rfl⟩ | hempty
    · have hquantified : ∀ v ∈ b.2.typeVars, s.Covers (.type v.id) := fun v hv => hvars _ (type_mem_vars_prelude b hb v hv)
      exact List.forall_mem_append.mpr ⟨hvars, List.forall_mem_append.mpr
        ⟨List.forall_mem_map.mpr hquantified, List.forall_mem_map.mpr hrows⟩⟩
    · cases hempty
  · rcases Registry.isDefault_prelude hbuild ht with rfl | rfl <;> exact List.forall_mem_nil _

theorem numberedBelow_of_first {config : Config} {counters : Counters} {events : List Event}
    (hbuild : Checker.build config .prelude ⟨0, 0⟩ = (.ok (checker, counters), events)) (hs : Supply.Precedes ⟨1024, 1024⟩ s) :
    checker.NumberedBelow s := by
  obtain ⟨-, rfl⟩ := Checker.build_ok hbuild
  exact numberedBelow_prelude hbuild hs.1 hs.2

def raised {base : Supply} (h : checker.NumberedBelow base) (hbase : base.Precedes s) : Variant checker.registry where
  numbers := base.onto s
  ascends := Supply.ascends_onto hbase
  defaults t ht := Ty.renumber_of_fixed fun v hv => Supply.renumber_onto_of_covers (h.defaults t ht v hv)
  traced := checker.config.trace

theorem exists_told_both (h : checker.NumberedBelow s) (h' : checker.NumberedBelow s') (p : Program) : ∃ answer : Answer,
    (∃ trace, (checker.checkProgram s p).1 = answer.told ((s.meet s').onto s) trace) ∧
      ∃ trace, (checker.checkProgram s' p).1 = answer.told ((s.meet s').onto s') trace := by
  obtain ⟨answer, htold⟩ := checker.exists_told (s.meet s') p
  have hmeet := h.meet h'
  have hglobals (s₁ : Supply) : checker.globals.renumber ((s.meet s').onto s₁) = checker.globals := by
    refine Env.renumber_of_fixed fun scheme hscheme => ?_
    refine Scheme.renumber_of_fixed fun v hv => ?_
    exact Supply.renumber_onto_of_covers (hmeet.globals scheme hscheme v hv)
  exact ⟨answer, htold (raised hmeet (s.meet_precedes_left s')) s (Supply.renders_onto _ _) (hglobals s),
    htold (raised hmeet (s.meet_precedes_right s')) s' (Supply.renders_onto _ _) (hglobals s')⟩

/-- The second answer is the first one with the numbers changed; of the diagnostics only the texts that show types may differ. -/
inductive SameBut (π : Renumbering) : Except CheckError CheckedProgram → Except CheckError CheckedProgram → Prop
  | ok {out out' : CheckedProgram} (decls : out'.decls = out.decls.map (TypedDecl.renumber π))
      (schemes : out'.schemes = out.schemes.mapValues (Scheme.renumber π)) (resolved : out'.resolved = out.resolved) :
      SameBut π (.ok out) (.ok out')
  | type {ds ds' : List Diagnostic} (outlines : ds'.map Diagnostic.outline = ds.map Diagnostic.outline) :
      SameBut π (.error (.type ds)) (.error (.type ds'))
  | internal (v : InvariantViolation) : SameBut π (.error (.internal v)) (.error (.internal (v.renumber π)))

theorem checkProgram_moved (h : checker.NumberedBelow s) (h' : checker.NumberedBelow s') (p : Program) :
    SameBut (s.onto s') (checker.checkProgram s p).1 (checker.checkProgram s' p).1 := by
  obtain ⟨answer, ⟨trace, hanswer⟩, trace', hanswer'⟩ := exists_told_both h h' p
  have hcomp := Supply.onto_comp (s.meet_precedes_left s') s'
  rw [hanswer, hanswer', ← hcomp]
  cases answer with
  | ok decls schemes resolved =>
      refine .ok (map_map_congr fun d _ => d.renumber_comp).symm ?_ rfl
      exact (map_map_congr fun e _ => congrArg (Prod.mk e.1) e.2.renumber_comp).symm
  | type reports =>
      refine .type ?_
      rw [List.map_map, List.map_map]
      refine List.map_congr_left fun r _ => ?_
      exact r.outline_renumber.trans r.outline_renumber.symm
  | internal v =>
      have hinternal := SameBut.internal (π := s.onto s') (v.renumber ((s.meet s').onto s))
      rwa [v.renumber_comp] at hinternal

theorem checkProgram_moved_application :
    let f := Decl.bind 4 "f" (.app 3 (.lambda 1 ["x"] (.var 0 "x")) [.lambda 2 ["y"] (.var 5 "y")])
    ∃ checker counters events out log, Checker.build .default .prelude ⟨0, 0⟩ = (.ok (checker, counters), events) ∧
      checker.NumberedBelow ⟨1024, 1024⟩ ∧ checker.NumberedBelow ⟨2048, 4096⟩ ∧
      checker.checkProgram ⟨1024, 1024⟩ ⟨[f], []⟩ = (.ok out, log) ∧
      out.schemes = [("f", .mono (.fn [.ofVar 1025] (Effects.closed []) (.ofVar 1025)))] ∧
      SameBut (Supply.onto ⟨1024, 1024⟩ ⟨2048, 4096⟩) (checker.checkProgram ⟨1024, 1024⟩ ⟨[f], []⟩).1
        (checker.checkProgram ⟨2048, 4096⟩ ⟨[f], []⟩).1 := by
  intro f
  obtain ⟨checker, counters, events, hbuild, hchecker, -⟩ := exists_prelude
  have hlow : checker.NumberedBelow ⟨1024, 1024⟩ := numberedBelow_of_first hbuild (by decide)
  have hhigh : checker.NumberedBelow ⟨2048, 4096⟩ := numberedBelow_of_first hbuild (by decide)
  obtain ⟨out, log, hok, hschemes⟩ := exists_ok_of_any (x := checker.checkProgram ⟨1024, 1024⟩ ⟨[f], []⟩)
    (P := fun out => out.schemes = [("f", .mono (.fn [.ofVar 1025] (Effects.closed []) (.ofVar 1025)))]) (by rw [hchecker]; cbv)
  exact ⟨checker, counters, events, out, log, hbuild, hlow, hhigh, hok, hschemes, checkProgram_moved hlow hhigh ⟨[f], []⟩⟩

def typeErrors {α : Type} : Except CheckError α → Option (List Diagnostic)
  | .error (.type ds) => some ds
  | _ => none

theorem exists_type_of_any {α β : Type} {x : Except CheckError α × β} {P : List Diagnostic → Prop} [DecidablePred P]
    (h : (typeErrors x.1).any (fun ds => P ds) = true) : ∃ ds b, x = (.error (.type ds), b) ∧ P ds := by
  obtain ⟨answer, b⟩ := x
  match answer with
  | .error (.type ds) => exact ⟨ds, b, rfl, of_decide_eq_true h⟩
  | .error (.internal _) | .ok _ => cases h

variable {p : Program} {ds : List Diagnostic} {log : List Event}

theorem checkProgram_diagnostics (h : checker.NumberedBelow s) (h' : checker.NumberedBelow s')
    (hfails : checker.checkProgram s p = (.error (.type ds), log)) : ∃ reports : List Report, ds = reports.map Report.diagnostic ∧
      (checker.checkProgram s' p).1 = .error (.type (reports.map fun r => (r.renumber (s.onto s')).diagnostic)) ∧
      ∀ r ∈ reports, (∀ v ∈ r.numbered, s.Covers v) → (r.renumber (s.onto s')).diagnostic = r.diagnostic := by
  obtain ⟨answer, ⟨trace, hanswer⟩, trace', hanswer'⟩ := exists_told_both h h' p
  have hcomp := Supply.onto_comp (s.meet_precedes_left s') s'
  rw [hfails] at hanswer
  cases answer with
  | ok | internal => cases hanswer
  | type reports =>
      obtain rfl := CheckError.type.inj (Except.error.inj hanswer)
      refine ⟨reports.map (Report.renumber ((s.meet s').onto s)), (map_map_congr fun _ _ => rfl).symm, ?_,
        List.forall_mem_map.mpr fun r _ hcovers => ?_⟩
      · rw [hanswer', ← hcomp, List.map_map]
        exact congrArg (Except.error ∘ CheckError.type) (List.map_congr_left fun r _ => congrArg Report.diagnostic r.renumber_comp.symm)
      · rw [r.renumber_comp, hcomp]
        rw [r.numbered_renumber, List.forall_mem_map] at hcovers
        have hfixed (s₁ : Supply) : ∀ v ∈ r.numbered, v.renumber ((s.meet s').onto s₁) = v := fun v hv =>
          Supply.renumber_onto_of_covers (Supply.covers_of_onto (hcovers v hv))
        rw [r.diagnostic_renumber (Supply.ascends_onto (s.meet_precedes_left s')) (hfixed s),
          r.diagnostic_renumber (Supply.ascends_onto (s.meet_precedes_right s')) (hfixed s')]

theorem checkProgram_diagnostics_letters :
    let p : Program := ⟨[.expr (.lambda 0 ["x"] (.app 1 (.var 2 "x") [.var 3 "x"]))], []⟩
    ∃ checker counters events ds log, Checker.build .default .prelude ⟨0, 0⟩ = (.ok (checker, counters), events) ∧
      checker.NumberedBelow ⟨1024, 1024⟩ ∧ checker.NumberedBelow ⟨2048, 4096⟩ ∧
      checker.checkProgram ⟨1024, 1024⟩ p = (.error (.type ds), log) ∧ ds.map Diagnostic.actual = [some "a"] ∧
      ∃ reports : List Report, ds = reports.map Report.diagnostic ∧
        (checker.checkProgram ⟨2048, 4096⟩ p).1 =
          .error (.type (reports.map fun r => (r.renumber (Supply.onto ⟨1024, 1024⟩ ⟨2048, 4096⟩)).diagnostic)) ∧
        ∀ r ∈ reports, (∀ v ∈ r.numbered, Supply.Covers ⟨1024, 1024⟩ v) →
          (r.renumber (Supply.onto ⟨1024, 1024⟩ ⟨2048, 4096⟩)).diagnostic = r.diagnostic := by
  intro p
  obtain ⟨checker, counters, events, hbuild, hchecker, -⟩ := exists_prelude
  have hlow : checker.NumberedBelow ⟨1024, 1024⟩ := numberedBelow_of_first hbuild (by decide)
  have hhigh : checker.NumberedBelow ⟨2048, 4096⟩ := numberedBelow_of_first hbuild (by decide)
  obtain ⟨ds, log, hfails, hactual⟩ := exists_type_of_any (x := checker.checkProgram ⟨1024, 1024⟩ p)
    (P := fun ds => ds.map Diagnostic.actual = [some "a"]) (by rw [hchecker]; cbv)
  exact ⟨checker, counters, events, ds, log, hbuild, hlow, hhigh, hfails, hactual, checkProgram_diagnostics hlow hhigh hfails⟩

theorem checkProgram_diagnostics_numbered :
    let e : Expr := .lambda 0 ["f"] (.app 1 (.var 2 "f") [.app 3 (.var 4 "read_file") [.lit 5 (.string "a")]])
    let p : Program := ⟨[.expr e], [(0, ["IO"])]⟩
    ∃ checker counters events ds ds' log log', Checker.build .default .prelude ⟨0, 0⟩ = (.ok (checker, counters), events) ∧
      checker.NumberedBelow ⟨1024, 1024⟩ ∧ checker.NumberedBelow ⟨2048, 2048⟩ ∧
      (checker.checking ⟨1024, 1024⟩ p).2.subst.Acyclic ∧ (checker.checking ⟨2048, 2048⟩ p).2.subst.Acyclic ∧
      checker.checkProgram ⟨1024, 1024⟩ p = (.error (.type ds), log) ∧ ds.map Diagnostic.actual = [some "[FS | e1024]"] ∧
      checker.checkProgram ⟨2048, 2048⟩ p = (.error (.type ds'), log') ∧ ds'.map Diagnostic.actual = [some "[FS | e2048]"] := by
  intro e p
  obtain ⟨checker, counters, events, hbuild, hchecker, -⟩ := exists_prelude
  obtain ⟨ds, log, hfails, hactual⟩ := exists_type_of_any (x := checker.checkProgram ⟨1024, 1024⟩ p)
    (P := fun ds => ds.map Diagnostic.actual = [some "[FS | e1024]"]) (by rw [hchecker]; cbv)
  obtain ⟨ds', log', hfails', hactual'⟩ := exists_type_of_any (x := checker.checkProgram ⟨2048, 2048⟩ p)
    (P := fun ds => ds.map Diagnostic.actual = [some "[FS | e2048]"]) (by rw [hchecker]; cbv)
  have hranked : (checker.checking ⟨1024, 1024⟩ p).2.subst.Ranked fun v => if v = .type 1024 then 1 else 0 := by
    rw [hchecker]
    decide_cbv
  have hranked' : (checker.checking ⟨2048, 2048⟩ p).2.subst.Ranked fun v => if v = .type 2048 then 1 else 0 := by
    rw [hchecker]
    decide_cbv
  exact ⟨checker, counters, events, ds, ds', log, log', hbuild, numberedBelow_of_first hbuild (by decide),
    numberedBelow_of_first hbuild (by decide), hranked.acyclic, hranked'.acyclic, hfails, hactual, hfails', hactual'⟩

end Checker

end RowTyping
