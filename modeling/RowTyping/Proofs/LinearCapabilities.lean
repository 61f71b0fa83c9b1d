import RowTyping.Proofs.EffectSoundness

namespace RowTyping

/-- What stands for the variable has the label, as an effect of its own or at a function in it. -/
def Assignment.Brings (A : Assignment) (l : Label) : Occurrence → Prop
  | .type v => l ∈ (A.type v).latentLabels
  | .tail r _ => l ∈ (A.row r).fields.keys ∨ ∃ f ∈ (A.row r).fields, l ∈ f.2.latentLabels

namespace Ty

variable {l : Label}

theorem mem_latentLabels_app {h : Ty} {as : List Ty} :
    l ∈ (Ty.app h as).latentLabels ↔ l ∈ h.latentLabels ∨ ∃ a ∈ as, l ∈ a.latentLabels := by
  rw [latentLabels, List.mem_append, latentLabelsAll_eq, List.mem_flatMap]

theorem mem_latentLabels_tuple {as : List Ty} : l ∈ (Ty.tuple as).latentLabels ↔ ∃ a ∈ as, l ∈ a.latentLabels := by
  rw [latentLabels, latentLabelsAll_eq, List.mem_flatMap]

theorem mem_latentLabels_fn {ps : List Ty} {e : Effects} {r : Ty} : l ∈ (Ty.fn ps e r).latentLabels ↔
    l ∈ Effects.labels e ∨ (∃ p ∈ ps, l ∈ p.latentLabels) ∨ l ∈ r.latentLabels := by
  rw [latentLabels, List.mem_append, List.mem_append, latentLabelsAll_eq, List.mem_flatMap, or_assoc]

theorem mem_latentLabels_record {r : Row} : l ∈ (Ty.record r).latentLabels ↔ ∃ f ∈ r.fields, l ∈ f.2.latentLabels := by
  obtain ⟨k, fs, rest⟩ := r
  change l ∈ latentLabelsFields fs ↔ _
  rw [latentLabelsFields_eq, List.mem_flatMap]

theorem latentLabels_value_both {A : Assignment} (hA : A.Ordered) :
    (∀ t : Ty, l ∈ (t.value A).latentLabels → l ∈ t.latentLabels ∨ ∃ o ∈ t.occurrences, A.Brings l o) ∧
      ∀ r : Row, (∃ f ∈ (r.value A).fields, l ∈ f.2.latentLabels) →
        (∃ f ∈ r.fields, l ∈ f.2.latentLabels) ∨ ∃ o ∈ r.occurrences, A.Brings l o := by
  apply Ty.induct_rows
  case var => exact fun v h => .inr ⟨_, mem_occurrences_var.mpr rfl, h⟩
  case con => exact fun _ h => .inl h
  case app =>
    intro t as ht has h
    simp only [value_app, mem_latentLabels_app, mem_occurrences_app, exists_mem_map] at h ⊢
    rcases h with h | ⟨a, ha, h⟩
    · exact (ht h).imp .inl fun ⟨o, ho, hb⟩ => ⟨o, .inl ho, hb⟩
    · exact (has a ha h).imp (fun h => .inr ⟨a, ha, h⟩) fun ⟨o, ho, hb⟩ => ⟨o, .inr ⟨a, ha, ho⟩, hb⟩
  case list => exact fun a ha h => ha h
  case tuple =>
    intro as has h
    simp only [value_tuple, mem_latentLabels_tuple, mem_occurrences_tuple, exists_mem_map] at h ⊢
    obtain ⟨a, ha, h⟩ := h
    exact (has a ha h).imp (fun h => ⟨a, ha, h⟩) fun ⟨o, ho, hb⟩ => ⟨o, ⟨a, ha, ho⟩, hb⟩
  case fn =>
    intro ps e r hps _ hr h
    rw [value_fn] at h
    simp only [mem_latentLabels_fn, mem_occurrences_fn, exists_mem_map] at h ⊢
    rcases h with h | ⟨p, hp, h⟩ | h
    · rcases (Effects.mem_labels_value hA).mp h with h | h
      · exact .inl (.inl h)
      · cases e with
        | none => cases h
        | some row =>
            obtain ⟨k, fs, rest⟩ := row
            cases rest with
            | none => cases h
            | some w => exact .inr ⟨.tail w k, .inr (.inl ⟨_, rfl, Row.mem_occurrences.mpr (.inr ⟨w, rfl, rfl⟩)⟩), .inl h⟩
    · exact (hps p hp h).imp (fun h => .inr (.inl ⟨p, hp, h⟩)) fun ⟨o, ho, hb⟩ => ⟨o, .inl ⟨p, hp, ho⟩, hb⟩
    · exact (hr h).imp (fun h => .inr (.inr h)) fun ⟨o, ho, hb⟩ => ⟨o, .inr (.inr ho), hb⟩
  case record =>
    intro r hr h
    rw [value_record, mem_latentLabels_record] at h
    rw [mem_latentLabels_record]
    exact hr h
  case row =>
    intro k fs rest hfs h
    rw [Row.value_eq] at h
    obtain ⟨f, hf, h⟩ := h
    rcases OrderedMap.mem_merge hf with hf | hf
    · obtain ⟨f, hown, rfl⟩ := List.mem_map.mp hf
      exact (hfs f hown h).imp (fun h => ⟨f, hown, h⟩) fun ⟨o, ho, hb⟩ => ⟨o, Row.mem_occurrences.mpr (.inl ⟨f, hown, ho⟩), hb⟩
    · cases rest with
      | none => cases hf
      | some w => exact .inr ⟨.tail w k, Row.mem_occurrences.mpr (.inr ⟨w, rfl, rfl⟩), .inr ⟨f, hf, h⟩⟩

theorem latentLabels_explicit_both : (∀ t : Ty, l ∈ t.latentLabels → l ∈ t.explicit.latentLabels) ∧
    ∀ r : Row, (∃ f ∈ r.fields, l ∈ f.2.latentLabels) → ∃ f ∈ r.explicit.fields, l ∈ f.2.latentLabels := by
  apply Ty.induct_rows
  case var => exact fun _ h => h
  case con => exact fun _ h => h
  case app =>
    intro t as ht has h
    simp only [explicit, value_app, mem_latentLabels_app, exists_mem_map] at h ⊢
    rcases h with h | ⟨a, ha, h⟩
    · exact .inl (ht h)
    · exact .inr ⟨a, ha, has a ha h⟩
  case list => exact fun a ha h => ha h
  case tuple =>
    intro as has h
    simp only [explicit, value_tuple, mem_latentLabels_tuple, exists_mem_map] at h ⊢
    obtain ⟨a, ha, h⟩ := h
    exact ⟨a, ha, has a ha h⟩
  case fn =>
    intro ps e r hps _ hr h
    rw [explicit, value_fn]
    simp only [mem_latentLabels_fn, exists_mem_map] at h ⊢
    rcases h with h | ⟨p, hp, h⟩ | h
    · exact .inl ((Effects.labels_explicit e l).mpr h)
    · exact .inr (.inl ⟨p, hp, hps p hp h⟩)
    · exact .inr (.inr (hr h))
  case record =>
    intro r hr h
    rw [explicit, value_record, mem_latentLabels_record]
    exact hr (mem_latentLabels_record.mp h)
  case row =>
    intro k fs rest hfs h
    obtain ⟨f, hf, h⟩ := h
    rw [Row.explicit_eq]
    exact ⟨_, List.mem_map_of_mem hf, hfs f hf h⟩

end Ty

namespace State

variable {s : State} {session : Session} {env : Env} {lambda : Expr} {c : Context}

theorem Guards.brings (hs : s.Ready) (hacyclic : s.subst.Acyclic) (hguards : s.Guards session env lambda c) {scheme : Scheme}
    {x : String} (hscheme : scheme ∈ env.lookupLocal x) {l : Label} (hl : l ∈ session.config.linearCapabilities)
    (hlatent : l ∈ (s.subst.apply scheme.ty).latentLabels) :
    l ∈ (c.flush.subst.apply scheme.ty).latentLabels ∨
      ∃ o ∈ (c.flush.subst.apply scheme.ty).occurrences, s.subst.assignment.Brings l o := by
  have hextends := hguards.grows (List.ne_nil_of_mem hl)
  have hlookup : env.lookup x = some scheme := by rw [Env.lookup, Option.mem_def.mp hscheme, Option.some_or]
  have hord := hs.unifier.within.ordered
  have hty : scheme.ty.Ordered := (hguards.owned scheme (mem_schemes_of_lookup hlookup)).ty.within.1
  have hvalue : (c.flush.subst.apply scheme.ty).value s.subst.assignment = (s.subst.apply scheme.ty).explicit :=
    (((hacyclic.models hord).of_extends hextends).apply (s.subst.assignment_ordered hord)
      (Substitution.All.of_extends hord hextends) hty).trans (hacyclic.value_assignment hord hty)
  apply (Ty.latentLabels_value_both (s.subst.assignment_ordered hord)).1 _
  rw [hvalue]
  exact Ty.latentLabels_explicit_both.1 _ hlatent

end State

def TypedExpr.parameters : TypedExpr → List (String × Ty)
  | .lambda _ params _ => params
  | _ => []

namespace Checker

variable {checker : Checker} {supply : Supply} {signatures : EffectSignatures} {e : Expr} {out : CheckedExpr} {log : List Event}

theorem checkExpr_captures (hglobals : ∀ scheme ∈ checker.globals.schemes, scheme.Within supply)
    (hdefaults : ∀ t, checker.registry.IsDefault t → t.isGround = true ∧ t.Ordered)
    (hok : checker.checkExpr supply signatures e = (.ok out, log)) (hacyclic : (checker.inferring supply signatures e).2.subst.Acyclic) :
    let final := (checker.inferring supply signatures e).2
    ∀ n ∈ out.typed.nodes, n.IsFunction → ∃ env lambda c, Scoped checker.globals e env lambda ∧
      Yields (checker.session signatures) env lambda c n final ∧
      ∀ x ∈ lambda.freeNames, ∀ scheme ∈ env.lookupLocal x, ∀ l ∈ checker.config.linearCapabilities,
        l ∉ (c.flush.subst.apply scheme.ty).latentLabels ∧ (l ∈ (final.subst.apply scheme.ty).latentLabels →
          ∃ o ∈ (c.flush.subst.apply scheme.ty).occurrences, final.subst.assignment.Brings l o) := by
  obtain ⟨s, hcontext, hs, haccepts, hnodes⟩ := checkExpr_nodes hglobals hdefaults hok hacyclic
  rw [← hcontext] at hacyclic ⊢
  intro final n hn hfn
  obtain ⟨n, rfl, htyped⟩ := hnodes n hn
  obtain ⟨env, lambda, c, hscoped, hmeets⟩ := htyped.met (s.subst.isFunction_applyExpr.mp hfn)
  refine ⟨env, lambda, c, hscoped, hmeets.yields.applyExpr, fun x hx scheme hscheme l hl => ?_⟩
  have hspared := hmeets.spares haccepts.errors x hx scheme hscheme l hl
  exact ⟨hspared, fun hlatent => (hmeets.toGuards.brings hs hacyclic hscheme hl hlatent).resolve_left hspared⟩

-- The capability is in the row of the parameter only when the whole is known, by the variable that the parameter has for its type.
theorem exists_late_capture :
    let inner : Expr := .lambda 2 ["u"] (.app 3 (.var 4 "f") [.lit 5 (.int 1)])
    let e : Expr := .app 0 (.lambda 1 ["f"] inner) [.var 6 "sleep"]
    ∃ checker counters events out log, Checker.build .default .prelude ⟨0, 0⟩ = (.ok (checker, counters), events) ∧
      (∀ scheme ∈ checker.globals.schemes, scheme.Within ⟨1024, 1024⟩) ∧
      (∀ t, checker.registry.IsDefault t → t.isGround = true ∧ t.Ordered) ∧ checker.config = .default ∧
      checker.checkExpr ⟨1024, 1024⟩ [] e = (.ok out, log) ∧ (checker.inferring ⟨1024, 1024⟩ [] e).2.subst.Acyclic ∧
      ∃ n ∈ out.typed.nodes, n.id = 1 ∧ (∃ p ∈ n.parameters, p.1 = "f" ∧ "Async" ∈ p.2.latentLabels) ∧ ∃ m ∈ n.children, m.id = 2 := by
  intro inner e
  obtain ⟨checker, counters, events, hbuild, hchecker, hglobals, hdefaults⟩ := exists_prelude
  obtain ⟨out, log, hok, htree⟩ := exists_ok_of_any (x := checker.checkExpr ⟨1024, 1024⟩ [] e)
    (P := fun out => ∃ n ∈ out.typed.nodes, n.id = 1 ∧ (∃ p ∈ n.parameters, p.1 = "f" ∧ "Async" ∈ p.2.latentLabels) ∧
      ∃ m ∈ n.children, m.id = 2) (by rw [hchecker]; cbv)
  have hranked : (checker.inferring ⟨1024, 1024⟩ [] e).2.subst.Ranked
      fun v => if v = .type 1024 then 2 else if v = .row 1024 ∨ v = .row 1025 then 1 else 0 := by
    rw [hchecker]
    decide_cbv
  exact ⟨checker, counters, events, out, log, hbuild, hglobals, hdefaults, by rw [hchecker], hok, hranked.acyclic, htree⟩

theorem checkExpr_captures_parameter :
    let e : Expr := .app 0 (.lambda 1 ["f"] (.lambda 2 ["u"] (.app 3 (.var 4 "f") [.lit 5 (.int 1)]))) [.var 6 "sleep"]
    ∃ checker counters events out log, Checker.build .default .prelude ⟨0, 0⟩ = (.ok (checker, counters), events) ∧
      checker.checkExpr ⟨1024, 1024⟩ [] e = (.ok out, log) ∧
      let final := (checker.inferring ⟨1024, 1024⟩ [] e).2
      ∀ n ∈ out.typed.nodes, n.IsFunction → ∃ env lambda c, Scoped checker.globals e env lambda ∧
        Yields (checker.session []) env lambda c n final ∧
        ∀ x ∈ lambda.freeNames, ∀ scheme ∈ env.lookupLocal x, ∀ l ∈ checker.config.linearCapabilities,
          l ∉ (c.flush.subst.apply scheme.ty).latentLabels ∧ (l ∈ (final.subst.apply scheme.ty).latentLabels →
            ∃ o ∈ (c.flush.subst.apply scheme.ty).occurrences, final.subst.assignment.Brings l o) := by
  intro e
  obtain ⟨checker, counters, events, out, log, hbuild, hglobals, hdefaults, -, hok, hacyclic, -⟩ := exists_late_capture
  exact ⟨checker, counters, events, out, log, hbuild, hok, checkExpr_captures hglobals hdefaults hok hacyclic⟩

theorem checkExpr_captures_late :
    let inner : Expr := .lambda 2 ["u"] (.app 3 (.var 4 "f") [.lit 5 (.int 1)])
    let e : Expr := .app 0 (.lambda 1 ["f"] inner) [.var 6 "sleep"]
    ∃ checker counters events out log, Checker.build .default .prelude ⟨0, 0⟩ = (.ok (checker, counters), events) ∧
      checker.checkExpr ⟨1024, 1024⟩ [] e = (.ok out, log) ∧ "Async" ∈ checker.config.linearCapabilities ∧ "f" ∈ inner.freeNames ∧
      ∃ n ∈ out.typed.nodes, n.id = 1 ∧ (∃ p ∈ n.parameters, p.1 = "f" ∧ "Async" ∈ p.2.latentLabels) ∧ ∃ m ∈ n.children, m.id = 2 := by
  intro inner e
  obtain ⟨checker, counters, events, out, log, hbuild, -, -, hconfig, hok, -, htree⟩ := exists_late_capture
  exact ⟨checker, counters, events, out, log, hbuild, hok, by rw [hconfig]; decide, by decide, htree⟩

end Checker

end RowTyping
