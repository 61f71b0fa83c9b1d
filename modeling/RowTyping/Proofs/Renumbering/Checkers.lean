import RowTyping.Proofs.Elaboration
import RowTyping.Proofs.Renumbering.Programs

namespace RowTyping

variable {π : Renumbering}

namespace ResolutionTable

theorem setMethod_renumber (t : ResolutionTable) (node : NodeId) (method : String) :
    (t.renumber π).setMethod node method = (t.setMethod node method).renumber π := by
  refine map_map_comm fun e _ => ?_
  by_cases h : e.1 = node
  · rw [if_pos h, if_pos h]
    exact congrArg (e.1, ·) (map_map_comm fun _ _ => rfl)
  · rw [if_neg h, if_neg h]

theorem assignMethods_renumber (t : ResolutionTable) (e : TypedExpr) :
    (t.renumber π).assignMethods (e.renumber π) = (t.assignMethods e).renumber π := by
  have hnodes : (e.renumber π).nodes = e.nodes.map (TypedExpr.renumber π) := e.nodes_retype
  rw [assignMethods, assignMethods, hnodes]
  induction e.nodes generalizing t with
  | nil => rfl
  | cons node nodes ih =>
      rw [List.map_cons, List.foldl_cons, List.foldl_cons, ← ih, node.operatorMethod?_renumber, node.id_renumber]
      cases node.operatorMethod? with
      | none => rfl
      | some method => exact congrArg (List.foldl _ · _) (t.setMethod_renumber node.id method)

theorem foldl_assignMethods_renumber (t : ResolutionTable) (es : List TypedExpr) :
    (es.map (TypedExpr.renumber π)).foldl assignMethods (t.renumber π) = (es.foldl assignMethods t).renumber π := by
  induction es generalizing t with
  | nil => rfl
  | cons e es ih => rw [List.map_cons, List.foldl_cons, List.foldl_cons, assignMethods_renumber, ih]

theorem renumber_of_ground {t : ResolutionTable} (h : ∀ e ∈ t.entries, e.ty.isGround = true) : t.renumber π = t := by
  have hentry {b : NodeId × List Resolution} (hb : b ∈ t) : b.2.map (Resolution.renumber π) = b.2 := by
    refine (List.map_congr_left fun e he => ?_).trans b.2.map_id
    rw [Resolution.renumber, Ty.renumber_of_ground (h e (mem_entries.mpr ⟨b, hb, he⟩)), id]
  exact (List.map_congr_left fun b hb => congrArg (b.1, ·) (hentry hb)).trans t.map_id

theorem check_renumber (hπ : π.Ascends) (t : ResolutionTable) :
    (t.renumber π).check = t.check.mapError (InvariantViolation.renumber π) := by
  have hground (e : Resolution) : (!(e.renumber π).ty.isGround) = !e.ty.isGround := congrArg (!·) (e.ty.isGround_renumber hπ)
  rw [check, check, entries_renumber, List.find?_map]
  simp only [Function.comp_def, hground]
  cases hfind : t.entries.find? fun e => !e.ty.isGround with
  | some bad => rfl
  | none =>
      refine congrArg Except.ok (renumber_of_ground fun e he => ?_)
      simpa using List.find?_eq_none.mp hfind e he

end ResolutionTable

inductive Answer where
  | ok (decls : List TypedDecl) (schemes : OrderedMap String Scheme) (resolved : ResolutionTable)
  | type (reports : List Report)
  | internal (v : InvariantViolation)

namespace Answer

def told (π : Renumbering) (trace : Option CheckTrace) : Answer → Except CheckError CheckedProgram
  | .ok decls schemes resolved =>
      .ok ⟨decls.map (TypedDecl.renumber π), schemes.mapValues (Scheme.renumber π), resolved, trace⟩
  | .type reports => .error (.type (reports.map fun r => (r.renumber π).diagnostic))
  | .internal v => .error (.internal (v.renumber π))

end Answer

def Sketch.answer (k : Sketch) (decls : List TypedDecl) : Answer :=
  let applied := decls.map k.context.subst.applyDecl
  match k.context.internal, k.reports with
  | some v, _ => .internal v
  | none, [] =>
      match ((applied.flatMap TypedDecl.exprs).foldl ResolutionTable.assignMethods k.context.resolved).check with
      | .ok table => .ok applied (OrderedMap.ofList (decls.flatMap Checker.boundSchemes)) table
      | .error v => .internal v
  | none, reports => .type reports

namespace Checker

def traced (checker : Checker) (trace : Bool) : Checker :=
  { checker with config := { checker.config with trace } }

variable {checker : Checker}

theorem exportedProgram_renders {k : Sketch} {c : Context} (h : k.Renders π c) (hπ : π.Ascends) (decls : List TypedDecl) :
    (checker.exportedProgram (decls.map (TypedDecl.renumber π), c)).1 = (k.answer decls).told π (checker.traceOf c) := by
  have happlied : (decls.map (TypedDecl.renumber π)).map c.subst.applyDecl =
      (decls.map k.context.subst.applyDecl).map (TypedDecl.renumber π) := by
    rw [Context.subst, h.unifier.subst]
    exact map_map_comm fun d _ => Substitution.applyDecl_renumber _ hπ d
  have hexprs (ds : List TypedDecl) : (ds.map (TypedDecl.renumber π)).flatMap TypedDecl.exprs =
      (ds.flatMap TypedDecl.exprs).map (TypedExpr.renumber π) := by
    rw [List.flatMap_map, List.map_flatMap]
    exact List.flatMap_congr fun d _ => d.exprs_renumber
  have hschemes : OrderedMap.ofList ((decls.map (TypedDecl.renumber π)).flatMap boundSchemes) =
      (OrderedMap.ofList (decls.flatMap boundSchemes)).mapValues (Scheme.renumber π) := by
    rw [OrderedMap.mapValues_ofList, List.flatMap_map, List.map_flatMap, List.flatMap_congr fun d _ => boundSchemes_renumber d]
  simp only [exportedProgram, happlied, hexprs, hschemes, finish, h.internal, h.errors, h.resolved,
    ResolutionTable.foldl_assignMethods_renumber, ResolutionTable.check_renumber hπ, Sketch.answer]
  cases k.context.internal with
  | some v => rfl
  | none =>
      cases k.reports with
      | cons r rs => rfl
      | nil =>
          simp only [List.map_nil, Option.map_none]
          cases ResolutionTable.check _ <;> rfl

theorem renders_context (checker : Checker) {base supply : Supply} (h : base.Renders π supply) :
    Sketch.Renders π ⟨Context.ofSupply base, []⟩ (checker.context supply) := by
  rw [context]
  split <;> exact ⟨⟨rfl, h⟩, rfl, rfl, rfl, rfl, rfl, rfl⟩

theorem exists_told (checker : Checker) (base : Supply) (p : Program) : ∃ answer : Answer, ∀ (v : Variant checker.registry) (supply : Supply),
    base.Renders v.numbers supply → checker.globals.renumber v.numbers = checker.globals →
      ∃ trace, ((checker.traced v.traced).checkProgram supply p).1 = answer.told v.numbers trace := by
  obtain ⟨decls, k, h⟩ := uniform_checkDecls (checker.session p.signatures) checker.globals p.decls ⟨Context.ofSupply base, []⟩
  refine ⟨k.answer decls, fun v supply hsupply hglobals => ?_⟩
  obtain ⟨hdecls, hk⟩ := h v _ ((checker.traced v.traced).renders_context hsupply)
  simp only [hglobals] at hdecls hk
  have hchecking : (checker.traced v.traced).checking supply p =
      (decls.map (TypedDecl.renumber v.numbers), ((checker.traced v.traced).checking supply p).2) := congrArg (·, _) hdecls
  rw [checkProgram_eq, hchecking]
  exact ⟨_, exportedProgram_renders hk v.ascends decls⟩

end Checker

end RowTyping
