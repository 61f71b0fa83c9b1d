import Mathlib
import RowTyping.Proofs.EffectSoundness

namespace RowTyping

namespace Scheme

def Settled (scheme : Scheme) (s : Substitution) : Prop :=
  ∀ v ∈ scheme.vars, v ∉ scheme.quantified → ¬ s.Binds v

end Scheme

namespace Substitution

variable {s : Substitution} {scheme : Scheme}

theorem applyScheme_of_settled (h : scheme.Settled s) : s.applyScheme scheme = scheme := by
  have hfree : ∀ v ∈ scheme.vars, ¬ (s.outside scheme).Binds v := fun v hv hbinds =>
    h v hv (binds_outside.mp hbinds).1 (binds_outside.mp hbinds).2
  have hty : (s.outside scheme).apply scheme.ty = scheme.ty :=
    apply_of_free fun v hv => hfree v (List.mem_append_left _ hv)
  have hpredicates : scheme.predicates.map (s.outside scheme).applyPredicate = scheme.predicates := by
    refine (List.map_congr_left fun p hp => ?_).trans (List.map_id _)
    have hp : (s.outside scheme).apply p.ty = p.ty :=
      apply_of_free fun v hv => hfree v (List.mem_append_right _ (List.mem_flatMap.mpr ⟨p, hp, hv⟩))
    rw [applyPredicate, hp, id]
  rw [applyScheme, hty, hpredicates]

theorem Acyclic.applyScheme_eq_iff (hs : s.Acyclic) : s.applyScheme scheme = scheme ↔ scheme.Settled s := by
  refine ⟨fun h v hv hquantified hbinds => ?_, applyScheme_of_settled⟩
  have houtside : (s.outside scheme).Acyclic := (s.extends_outside scheme).acyclic hs
  have hbinds : (s.outside scheme).Binds v := binds_outside.mpr ⟨hquantified, hbinds⟩
  rcases List.mem_append.mp hv with hv | hv
  · rw [← congrArg Scheme.ty h] at hv
    exact houtside.free_of_apply hv hbinds
  · rw [← congrArg Scheme.predicates h] at hv
    obtain ⟨p, hp, hv⟩ := List.mem_flatMap.mp hv
    obtain ⟨p, -, rfl⟩ := List.mem_map.mp hp
    exact houtside.free_of_apply hv hbinds

theorem boundSchemes_applyDecl (d : TypedDecl) :
    Checker.boundSchemes (s.applyDecl d) = OrderedMap.mapValues s.applyScheme (Checker.boundSchemes d) := by
  cases d with
  | bindRec id bindings => simp [applyDecl, Checker.boundSchemes, applyBindings_eq, applyBinding, OrderedMap.mapValues]
  | _ => rfl

end Substitution

def TypedDecl.lastScheme (decls : List TypedDecl) (name : String) : Option Scheme :=
  OrderedMap.find? (decls.flatMap Checker.boundSchemes).reverse name

namespace TypedDecl

variable (s : Substitution) (decls : List TypedDecl) (name : String)

theorem find?_ofList_boundSchemes : (OrderedMap.ofList (decls.flatMap Checker.boundSchemes)).find? name = lastScheme decls name :=
  OrderedMap.find?_ofList _ name

theorem lastScheme_map_applyDecl : lastScheme (decls.map s.applyDecl) name = (lastScheme decls name).map s.applyScheme := by
  have hbound : (decls.map s.applyDecl).flatMap Checker.boundSchemes =
      OrderedMap.mapValues s.applyScheme (decls.flatMap Checker.boundSchemes) := by
    simp only [List.flatMap_map, Substitution.boundSchemes_applyDecl, OrderedMap.mapValues, List.map_flatMap]
  rw [lastScheme, hbound, OrderedMap.mapValues, ← List.map_reverse]
  exact OrderedMap.find?_mapValues _ _ name

end TypedDecl

namespace Checker

open TypedDecl

variable {checker : Checker} {supply : Supply} {p : Program} {out : CheckedProgram} {log : List Event}

theorem exportedProgram_schemes {x : List TypedDecl × Context} (h : checker.exportedProgram x = (.ok out, log)) :
    out.schemes = OrderedMap.ofList (x.1.flatMap boundSchemes) := by
  rw [exportedProgram] at h
  cases hanswer : finish ((x.1.map x.2.subst.applyDecl).flatMap TypedDecl.exprs) x.2 with
  | mk answer log' =>
      rw [hanswer] at h
      cases answer with
      | error => cases congrArg Prod.fst h
      | ok table =>
          obtain rfl := Except.ok.inj (congrArg Prod.fst h)
          rfl

theorem checkProgram_schemes (hok : checker.checkProgram supply p = (.ok out, log)) (name : String) :
    lastScheme out.decls name = (out.schemes.find? name).map (checker.checking supply p).2.subst.applyScheme ∧
      ∀ scheme ∈ out.schemes.find? name,
        (scheme.Settled (checker.checking supply p).2.subst → lastScheme out.decls name = some scheme) ∧
        ((checker.checking supply p).2.subst.Acyclic → lastScheme out.decls name = some scheme →
          scheme.Settled (checker.checking supply p).2.subst) := by
  rw [checkProgram_eq] at hok
  generalize checker.checking supply p = x at *
  obtain ⟨hdecls, -, -⟩ := exportedProgram_ok hok
  have hlast : lastScheme out.decls name = (out.schemes.find? name).map x.2.subst.applyScheme := by
    rw [hdecls, lastScheme_map_applyDecl, exportedProgram_schemes hok, find?_ofList_boundSchemes]
  refine ⟨hlast, fun scheme hscheme => ?_⟩
  rw [hlast, hscheme, Option.map_some, Option.some_inj]
  exact ⟨Substitution.applyScheme_of_settled, fun hacyclic => hacyclic.applyScheme_eq_iff.mp⟩

theorem checkProgram_schemes_used :
    let f := Decl.bind 4 "f" (.app 3 (.lambda 1 ["x"] (.var 0 "x")) [.lambda 2 ["y"] (.var 5 "y")])
    let g := Decl.bind 7 "g" (.lambda 6 ["x"] (.var 8 "x"))
    let p : Program := ⟨[f, g, .expr (.app 9 (.var 10 "f") [.app 11 (.var 12 "g") [.lit 13 (.bool true)]])], []⟩
    ∃ checker counters events out log, Checker.build .default .prelude ⟨0, 0⟩ = (.ok (checker, counters), events) ∧
      checker.checkProgram ⟨1024, 1024⟩ p = (.ok out, log) ∧
      lastScheme out.decls "f" = (out.schemes.find? "f").map (checker.checking ⟨1024, 1024⟩ p).2.subst.applyScheme ∧
        ∀ scheme ∈ out.schemes.find? "f",
          lastScheme out.decls "f" = some scheme ↔ scheme.Settled (checker.checking ⟨1024, 1024⟩ p).2.subst := by
  intro f g p
  obtain ⟨checker, counters, events, hbuild, hchecker, -⟩ := exists_prelude
  obtain ⟨out, log, hok, -⟩ :=
    exists_ok_of_any (x := checker.checkProgram ⟨1024, 1024⟩ p) (P := fun _ => True) (by rw [hchecker]; cbv)
  have hranked : (checker.checking ⟨1024, 1024⟩ p).2.subst.Ranked
      fun v => if v = .type 1024 then 2 else if v = .type 1025 then 1 else 0 := by
    rw [hchecker]
    decide_cbv
  obtain ⟨hlast, hscheme⟩ := checkProgram_schemes hok "f"
  exact ⟨checker, counters, events, out, log, hbuild, hok, hlast, fun scheme h =>
    ⟨(hscheme scheme h).2 hranked.acyclic, (hscheme scheme h).1⟩⟩

theorem checkProgram_schemes_stale :
    let f := Decl.bind 4 "f" (.app 3 (.lambda 1 ["x"] (.var 0 "x")) [.lambda 2 ["y"] (.var 5 "y")])
    ∃ checker counters events out log, Checker.build .default .prelude ⟨0, 0⟩ = (.ok (checker, counters), events) ∧
      checker.checkProgram ⟨1024, 1024⟩ ⟨[f, .expr (.app 6 (.var 7 "f") [.lit 8 (.bool true)])], []⟩ = (.ok out, log) ∧
      lastScheme out.decls "f" = some (.mono (.fn [.bool] (Effects.closed []) .bool)) ∧
        out.schemes.find? "f" = some (.mono (.fn [.ofVar 1025] (Effects.closed []) (.ofVar 1025))) := by
  intro f
  obtain ⟨checker, counters, events, hbuild, hchecker, -⟩ := exists_prelude
  obtain ⟨out, log, hok, hlast, hfind⟩ :=
    exists_ok_of_any (x := checker.checkProgram ⟨1024, 1024⟩ ⟨[f, .expr (.app 6 (.var 7 "f") [.lit 8 (.bool true)])], []⟩)
      (P := fun out => lastScheme out.decls "f" = some (.mono (.fn [.bool] (Effects.closed []) .bool)) ∧
        out.schemes.find? "f" = some (.mono (.fn [.ofVar 1025] (Effects.closed []) (.ofVar 1025)))) (by rw [hchecker]; cbv)
  exact ⟨checker, counters, events, out, log, hbuild, hok, hlast, hfind⟩

end Checker

end RowTyping
