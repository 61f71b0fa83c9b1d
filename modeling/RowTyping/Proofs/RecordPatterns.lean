import RowTyping.Proofs.Erasure
import RowTyping.Proofs.Positional
import RowTyping.Proofs.Soundness

namespace RowTyping

def Ty.field? (t : Ty) (l : Label) : Option Ty :=
  match t with
  | .record row => row.get? l
  | t => t.positionalField? l

namespace TypedPattern

/-- A record pattern that lists a part whose type is not the one its record gives to the name. -/
def strays : TypedPattern → Bool
  | .record _ t fs _ => fs.any fun f => t.field? f.1 ≠ some f.2.ty
  | _ => false

variable {encoding : RecordEncoding} {id : NodeId} {t u : Ty} {fs : List (String × TypedPattern)} {isOpen : Bool} {l : Label}

theorem exists_of_strays {p : TypedPattern} (h : p.strays = true) :
    ∃ id t fs isOpen, p = .record id t fs isOpen ∧ ∃ f ∈ fs, t.field? f.1 ≠ some f.2.ty := by
  cases p with
  | record id t fs isOpen =>
      obtain ⟨f, hf, hne⟩ := List.any_eq_true.mp h
      exact ⟨id, t, fs, isOpen, rfl, f, hf, of_decide_eq_true hne⟩
  | _ => cases h

theorem mem_of_find?_listed (h : (listed fs).find? l = some u) : ∃ f ∈ fs, f.1 = l ∧ f.2.ty = u := by
  obtain ⟨f, hf, heq⟩ := List.mem_map.mp (OrderedMap.mem_of_find?_ofList h)
  exact ⟨f, hf, Prod.mk.inj heq⟩

theorem find?_listed_of_mem {f : String × TypedPattern} (hf : f ∈ fs) : ∃ u, (listed fs).find? f.1 = some u := by
  refine OrderedMap.mem_keys_iff.mp (OrderedMap.mem_keys_ofList.mpr ?_)
  exact List.mem_map_of_mem (List.mem_map_of_mem hf)

theorem Constrains.field?_eq (h : (record id t fs isOpen).Constrains encoding)
    (hplain : encoding = .positional → isOpen = false → PlainLabels (listed fs).keys) (hl : (listed fs).find? l = some u) :
    t.field? l = some u := by
  cases isOpen with
  | true =>
      obtain ⟨row, rfl, hfields⟩ := h
      exact hfields (l, u) (OrderedMap.mem_of_find? hl)
  | false =>
      have ht : t = encoding.recordType (listed fs) := h
      subst ht
      cases encoding with
      | rows =>
          change (OrderedMap.ofList (listed fs)).find? l = some u
          rwa [listed, OrderedMap.ofList_ofList]
      | positional => exact (Ty.positionalField?_of_plain (hplain rfl rfl) l).trans hl

theorem Constrains.plain (h : (record id t fs false).Constrains .positional) (hfields : ∀ f ∈ fs, t.field? f.1 = some f.2.ty) :
    PlainLabels (listed fs).keys := by
  have ht : t = Ty.positionalRecord (listed fs) := h
  subst ht
  refine Ty.plain_of_positionalField? fun l hl => ?_
  obtain ⟨u, hu⟩ := OrderedMap.mem_keys_iff.mp hl
  obtain ⟨f, hf, rfl, -⟩ := mem_of_find?_listed hu
  exact ne_of_eq_of_ne (hfields f hf) (Option.some_ne_none _)

theorem Constrains.all_iff (h : (record id t fs isOpen).Constrains encoding) : (∀ f ∈ fs, t.field? f.1 = some f.2.ty) ↔
    (∀ f ∈ fs, ∀ g ∈ fs, f.1 = g.1 → f.2.ty = g.2.ty) ∧
      (encoding = .positional → isOpen = false → PlainLabels (listed fs).keys) := by
  constructor
  · intro hfields
    refine ⟨fun f hf g hg hname => ?_, ?_⟩
    · have hsame := hfields f hf
      rw [hname, hfields g hg] at hsame
      exact (Option.some.inj hsame).symm
    · rintro rfl rfl
      exact h.plain hfields
  · rintro ⟨hone, hplain⟩ f hf
    obtain ⟨u, hu⟩ := find?_listed_of_mem hf
    obtain ⟨g, hg, hname, rfl⟩ := mem_of_find?_listed hu
    rw [h.field?_eq hplain hu, hone g hg f hf hname]

end TypedPattern

namespace Checker

open InferM

variable {config : Config} {counters counters' : Counters} {checker : Checker} {events : List Event} {supply : Supply}
  {signatures : EffectSignatures} {e : Expr} {out : CheckedExpr} {log : List Event}

theorem erase_inferring (checker : Checker) (supply : Supply) (signatures : EffectSignatures) (e : Expr) :
    (checker.inferring supply signatures e).1.erase = e :=
  (erases_topLevel (erases_inferExpr (checker.session signatures) e checker.globals)).within _ (checker.context supply)

theorem checkExpr_recordPatterns (hbuild : Checker.build config .prelude counters = (.ok (checker, counters'), events))
    (htypes : counters'.nextType ≤ supply.nextType) (hrowVars : counters'.nextRow ≤ supply.nextRow)
    (hok : checker.checkExpr supply signatures e = (.ok out, log)) :
    out.typed.erase = e ∧ ∀ n ∈ out.typed.nodes, ∀ id t fs isOpen, .record id t fs isOpen ∈ n.patterns →
      ((∀ f ∈ fs, t.field? f.1 = some f.2.ty) ↔ (∀ f ∈ fs, ∀ g ∈ fs, f.1 = g.1 → f.2.ty = g.2.ty) ∧
        (config.encoding = .positional → isOpen = false → PlainLabels (TypedPattern.listed fs).keys)) := by
  obtain ⟨φ, -, hready, htyped⟩ := inferring_inferred hbuild htypes hrowVars signatures e
  have herased := erase_inferring checker supply signatures e
  have hencoding : (checker.session signatures).config.encoding = config.encoding := by
    obtain ⟨rfl, -⟩ := Checker.build_ok hbuild
    rfl
  rw [checkExpr_eq] at hok
  generalize checker.inferring supply signatures e = x at *
  obtain ⟨htree, -, -⟩ := exported_ok hok
  rw [htree, Substitution.erase_applyExpr, Substitution.nodes_applyExpr]
  refine ⟨herased, List.forall_mem_map.mpr fun n hn id t fs isOpen hp => ?_⟩
  have hpattern := (((htyped.nodes n hn).apply hready).patterns rfl _ hp).constrains
  rw [hencoding] at hpattern
  exact hpattern.all_iff

theorem checkExpr_recordPatterns_nested :
    let e : Expr := .caseOf 0 (.record 1 [("x", .lit 2 (.int 1)), ("y", .record 3 [("z", .lit 4 .unit)])])
      [(.record 5 [("y", .record 6 [("z", .var 7 "a")] false)] true, .var 8 "a")]
    ∃ checker counters events out log, Checker.build .default .prelude ⟨0, 0⟩ = (.ok (checker, counters), events) ∧
      checker.checkExpr ⟨1024, 1024⟩ [] e = (.ok out, log) ∧
      out.typed.erase = e ∧ ∀ n ∈ out.typed.nodes, ∀ id t fs isOpen, .record id t fs isOpen ∈ n.patterns →
        ((∀ f ∈ fs, t.field? f.1 = some f.2.ty) ↔ (∀ f ∈ fs, ∀ g ∈ fs, f.1 = g.1 → f.2.ty = g.2.ty) ∧
          (Config.default.encoding = .positional → isOpen = false → PlainLabels (TypedPattern.listed fs).keys)) := by
  intro e
  obtain ⟨⟨checker, counters⟩, events, hbuild, -⟩ :=
    exists_ok_of_any (x := Checker.build .default .prelude ⟨0, 0⟩) (P := fun _ => True) (by decide +kernel)
  obtain ⟨hchecker, rfl⟩ := Checker.build_ok hbuild
  obtain ⟨out, log, hok, -⟩ :=
    exists_ok_of_any (x := checker.checkExpr ⟨1024, 1024⟩ [] e) (P := fun _ => True) (by rw [hchecker]; decide +kernel)
  exact ⟨checker, _, events, out, log, hbuild, hok, checkExpr_recordPatterns hbuild (by decide) (by decide) hok⟩

theorem checkExpr_recordPattern_unconstrained :
    let e : Expr := .caseOf 6 (.record 1 [("x", .lit 0 (.int 1))])
      [(.record 4 [("x", .var 2 "a"), ("x", .var 3 "b")] false, .var 5 "a")]
    ∃ checker counters events out log, Checker.build .default .prelude ⟨0, 0⟩ = (.ok (checker, counters), events) ∧
      checker.checkExpr ⟨1024, 1024⟩ [] e = (.ok out, log) ∧
      ∃ n ∈ out.typed.nodes, ∃ id t fs isOpen, .record id t fs isOpen ∈ n.patterns ∧ ∃ f ∈ fs, t.field? f.1 ≠ some f.2.ty := by
  intro e
  obtain ⟨⟨checker, counters⟩, events, hbuild, -⟩ :=
    exists_ok_of_any (x := Checker.build .default .prelude ⟨0, 0⟩) (P := fun _ => True) (by decide +kernel)
  obtain ⟨hchecker, -⟩ := Checker.build_ok hbuild
  obtain ⟨out, log, hok, hfound⟩ := exists_ok_of_any (x := checker.checkExpr ⟨1024, 1024⟩ [] e)
    (P := fun out => out.typed.nodes.any (fun n => n.patterns.any TypedPattern.strays) = true) (by rw [hchecker]; decide +kernel)
  obtain ⟨n, hn, hfound⟩ := List.any_eq_true.mp hfound
  obtain ⟨p, hp, hstrays⟩ := List.any_eq_true.mp hfound
  obtain ⟨id, t, fs, isOpen, rfl, f, hf, hne⟩ := TypedPattern.exists_of_strays hstrays
  exact ⟨checker, counters, events, out, log, hbuild, hok, n, hn, id, t, fs, isOpen, hp, f, hf, hne⟩

end Checker

end RowTyping
