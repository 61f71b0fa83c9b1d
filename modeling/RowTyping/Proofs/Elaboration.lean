import RowTyping.Proofs.Growth
import RowTyping.Proofs.Inference.Checkers

namespace RowTyping

namespace Scheme

def Within (scheme : Scheme) (sup : Supply) : Prop :=
  scheme.ty.Within sup ∧ (∀ p ∈ scheme.predicates, p.ty.Within sup) ∧ ∀ r ∈ scheme.rowVars, sup.Covers (.row r)

instance (scheme : Scheme) (sup : Supply) : Decidable (scheme.Within sup) :=
  inferInstanceAs (Decidable (_ ∧ _))

structure Instantiates (scheme : Scheme) (A : Assignment) : Prop where
  type : ∀ v : TypeVar, v.id ∉ scheme.typeVars.map TypeVar.id → A.type v = .var v
  row : ∀ r, r ∉ scheme.rowVars → A.row r = ⟨[], some r⟩

def Demands (scheme : Scheme) (className : String) (t : Ty) : Prop :=
  ∃ p ∈ scheme.predicates, p.className = className ∧ ∃ A, scheme.Instantiates A ∧ p.ty.value A = t.explicit

end Scheme

namespace TypedDecl

def group : TypedDecl → List TypedBinding
  | .bind _ name scheme value => [⟨name, scheme, value⟩]
  | .bindRec _ bindings => bindings
  | .expr _ => []

/-- A group of bindings, of the declaration or made by a node in it, with the node in one of its values. -/
def Around (d : TypedDecl) (n : TypedExpr) (group : List TypedBinding) : Prop :=
  (∃ b ∈ group, n ∈ b.value.nodes) ∧ (group = d.group ∨ ∃ e ∈ d.exprs, ∃ m ∈ e.nodes, group = m.group)

theorem mem_group_of_mem_exprs {d : TypedDecl} (hgroup : ∃ b, b ∈ d.group) {e : TypedExpr} (he : e ∈ d.exprs) :
    ∃ b ∈ d.group, b.value = e := by
  cases d with
  | bind => exact ⟨_, List.mem_singleton_self _, (List.mem_singleton.mp he).symm⟩
  | bindRec => exact List.mem_map.mp he
  | expr =>
      obtain ⟨b, hb⟩ := hgroup
      cases hb

end TypedDecl

namespace Substitution

variable {s : Substitution}

def assignmentOf (s : Substitution) (scheme : Scheme) : Assignment where
  type v := if v.id ∈ scheme.typeVars.map TypeVar.id then s.assignment.type v else .var v
  row r := if r ∈ scheme.rowVars then s.assignment.row r else ⟨[], some r⟩

theorem instantiates_assignmentOf (s : Substitution) (scheme : Scheme) : scheme.Instantiates (s.assignmentOf scheme) :=
  ⟨fun _ hv => if_neg hv, fun _ hr => if_neg hr⟩

-- Besides the quantified variables, none that the scheme shows is bound.
theorem Acyclic.value_assignmentOf (h : s.Acyclic) (scheme : Scheme) (t : Ty) :
    ((s.outside scheme).apply t).value (s.assignmentOf scheme) = ((s.outside scheme).apply t).value s.assignment := by
  have houtside : (s.outside scheme).Acyclic := (s.extends_outside scheme).acyclic h
  refine Ty.value_congr fun o ho => ?_
  have hfree := houtside.free_of_apply (List.mem_map_of_mem (f := Occurrence.var) ho)
  cases o with
  | type v =>
      by_cases hv : v.id ∈ scheme.typeVars.map TypeVar.id
      · exact if_pos hv
      · refine (if_neg hv).trans (h.assignment_type_free fun hbinds => hfree (binds_outside.mpr ⟨?_, hbinds⟩)).symm
        exact mt Scheme.type_mem_quantified.mp hv
  | tail r k =>
      by_cases hr : r ∈ scheme.rowVars
      · exact if_pos hr
      · refine (if_neg hr).trans (assignment_row_free fun hbinds => hfree (binds_outside.mpr ⟨?_, hbinds⟩)).symm
        exact mt Scheme.row_mem_quantified.mp hr

theorem Acyclic.value_applied (h : s.Acyclic) (hs : s.Ordered) {t : Ty} (ht : t.Ordered) :
    (s.apply t).value s.assignment = (s.apply t).explicit := by
  rw [h.value_assignment hs (hs.apply ht), s.apply_of_free fun v hv => h.free_of_apply hv]

theorem exprs_applyDecl (d : TypedDecl) : (s.applyDecl d).exprs = d.exprs.map s.applyExpr := by
  cases d with
  | bindRec id bindings => simp [applyDecl, TypedDecl.exprs, applyBindings_eq, applyBinding]
  | _ => rfl

theorem group_applyDecl (d : TypedDecl) : (s.applyDecl d).group = d.group.map s.applyBinding := by
  cases d with
  | bindRec id bindings => exact s.applyBindings_eq bindings
  | _ => rfl

end Substitution

namespace State

variable {s : State} {session : Session} {sites : Sites}

theorem Carried.demands {group : List TypedBinding} {className : String} {t : Ty} (hacyclic : s.subst.Acyclic)
    (haccepts : s.Accepts s.subst.assignment) (ht : t.value s.subst.assignment = t.explicit)
    (h : s.Carried (group.map s.subst.applyBinding) className t) :
    ∃ b ∈ group.map s.subst.applyBinding, b.scheme.Demands className t := by
  obtain ⟨b, hb, p, hp, hname, hsame⟩ := h
  refine ⟨b, hb, p, hp, hname, ?_⟩
  obtain ⟨b₀, -, rfl⟩ := List.mem_map.mp hb
  obtain ⟨p₀, -, rfl⟩ := List.mem_map.mp hp
  have hinstantiates := s.subst.instantiates_assignmentOf b₀.scheme
  refine ⟨s.subst.assignmentOf b₀.scheme, ⟨hinstantiates.type, hinstantiates.row⟩, ?_⟩
  exact (hacyclic.value_assignmentOf b₀.scheme p₀.ty).trans ((hsame _ haccepts).trans ht)

theorem Declares.typed {d : TypedDecl} (hd : s.Declares session sites d) (herrors : s.context.errors = []) :
    (∀ e ∈ d.exprs, s.Typed session sites d.group e) ∧ ∀ b ∈ d.group, ∀ p ∈ b.scheme.predicates, p.ty.Within s.supply := by
  cases d with
  | bind => exact ⟨List.forall_mem_singleton.mpr ((hd.2 herrors).typed _ (List.mem_singleton_self _)), (hd.2 herrors).predicates⟩
  | bindRec => exact ⟨List.forall_mem_map.mpr (hd.2 herrors).typed, (hd.2 herrors).predicates⟩
  | expr => exact ⟨List.forall_mem_singleton.mpr hd.toTyped, List.forall_mem_nil _⟩

end State

namespace Checker

open InferM

variable {checker : Checker} {supply : Supply}

def checking (checker : Checker) (supply : Supply) (p : Program) : List TypedDecl × Context :=
  (checkDecls (checker.session p.signatures) checker.globals p.decls).run (checker.context supply)

def exportedProgram (checker : Checker) (x : List TypedDecl × Context) : Except CheckError CheckedProgram × List Event :=
  let decls := x.1.map x.2.subst.applyDecl
  let (table, events) := finish (decls.flatMap TypedDecl.exprs) x.2
  (table.map fun resolved => ⟨decls, OrderedMap.ofList (x.1.flatMap boundSchemes), resolved, checker.traceOf x.2⟩, events)

theorem checkProgram_eq (p : Program) : checker.checkProgram supply p = checker.exportedProgram (checker.checking supply p) := by
  rw [checkProgram, checking]
  generalize Walk.run (checkDecls (checker.session p.signatures) checker.globals p.decls) _ = x
  rfl

theorem exportedProgram_eq_ok {x : List TypedDecl × Context} {out : CheckedProgram} {log : List Event}
    (h : checker.exportedProgram x = (.ok out, log)) :
    out.decls = x.1.map x.2.subst.applyDecl ∧ ∃ events, finish (out.decls.flatMap TypedDecl.exprs) x.2 = (.ok out.resolved, events) := by
  rw [exportedProgram] at h
  cases hanswer : finish ((x.1.map x.2.subst.applyDecl).flatMap TypedDecl.exprs) x.2 with
  | mk answer events =>
      rw [hanswer] at h
      cases answer with
      | error => cases congrArg Prod.fst h
      | ok table =>
          obtain rfl := Except.ok.inj (congrArg Prod.fst h)
          exact ⟨rfl, events, hanswer⟩

theorem exportedProgram_ok {x : List TypedDecl × Context} {out : CheckedProgram} {log : List Event}
    (h : checker.exportedProgram x = (.ok out, log)) :
    out.decls = x.1.map x.2.subst.applyDecl ∧ x.2.errors = [] ∧ x.2.resolved.Holds out.resolved := by
  obtain ⟨hdecls, events, hfinish⟩ := exportedProgram_eq_ok h
  exact ⟨hdecls, finish_ok hfinish⟩

theorem checking_equations (checker : Checker) (supply : Supply) (p : Program) : (checker.checking supply p).2.equations = .empty := by
  have h : Ensures (checkDecls (checker.session p.signatures) checker.globals p.decls) (checker.context supply)
      fun _ c => c.equations = .empty := checkDecls_equations p.decls (State.context_start checker supply none).2.2.1
  rw [checking]
  exact h

theorem ownsEnv_start (hglobals : ∀ scheme ∈ checker.globals.schemes, scheme.Within supply) :
    (State.start checker supply none).OwnsEnv checker.globals := fun scheme hscheme => by
  obtain ⟨hty, hpredicates, hrowVars⟩ := (State.context_start checker supply none).2.1.symm ▸ hglobals scheme hscheme
  exact ⟨⟨hty, nofun, nofun⟩, hpredicates, hrowVars⟩

theorem supports_start (hdefaults : ∀ t, checker.registry.IsDefault t → t.isGround = true ∧ t.Ordered)
    (signatures : EffectSignatures) : (State.start checker supply none).Supports (checker.session signatures) := by
  refine ⟨nofun, fun t ht => ?_⟩
  obtain ⟨hground, hord⟩ := hdefaults t ht
  exact ⟨hground, ⟨hord, fun v hv => absurd hv (Ty.isGround_iff.mp hground v)⟩, nofun, nofun⟩

theorem checking_declares (hglobals : ∀ scheme ∈ checker.globals.schemes, scheme.Within supply)
    (hdefaults : ∀ t, checker.registry.IsDefault t → t.isGround = true ∧ t.Ordered) (p : Program) :
    ∃ s : State, s.context = (checker.checking supply p).2 ∧ s.Ready ∧ s.context.classes.toList = [] ∧
      ∀ d ∈ (checker.checking supply p).1, s.Declares (checker.session p.signatures) .anywhere d := by
  have hanywhere : ∀ env e, Sites.anywhere env e := fun _ _ => trivial
  obtain ⟨l, -, hready, hdeclares, hsettles⟩ := keeps_checkDecls hanywhere (State.ready_start (l := none) nofun)
    (ownsEnv_start hglobals) (supports_start hdefaults p.signatures) p.decls
  refine ⟨_, rfl, hready, hsettles rfl ?_, hdeclares⟩
  change (checker.context supply).classes.toList = []
  rw [(State.context_start checker supply none).2.2.2.1]
  rfl

theorem checkProgram_accounts (hglobals : ∀ scheme ∈ checker.globals.schemes, scheme.Within supply)
    (hdefaults : ∀ t, checker.registry.IsDefault t → t.isGround = true ∧ t.Ordered) {p : Program} {out : CheckedProgram}
    {log : List Event} (hok : checker.checkProgram supply p = (.ok out, log)) (hacyclic : (checker.checking supply p).2.subst.Acyclic) :
    ∀ d ∈ out.decls, ∀ e ∈ d.exprs, ∀ n ∈ e.nodes, ∀ x ∈ n.dispatch?, ∃ className ∈ x.1,
      (∃ r ∈ out.resolved.get n.id, r.className = className ∧ r.ty.explicit = x.2.explicit) ∨
        ∃ group, d.Around n group ∧ ∃ b ∈ group, b.scheme.Demands className x.2 := by
  obtain ⟨s, hcontext, hs, hclasses, hdeclares⟩ := checking_declares hglobals hdefaults p
  have hequations := checking_equations checker supply p
  rw [checkProgram_eq] at hok
  generalize checker.checking supply p = x at *
  obtain ⟨decls, c⟩ := x
  obtain rfl : c = s.context := hcontext.symm
  obtain ⟨hdecls, herrors, htable⟩ := exportedProgram_ok hok
  have haccepts := hs.accepts_assignment hacyclic herrors hequations
  have hord := hs.unifier.within.ordered
  rw [hdecls]
  refine List.forall_mem_map.mpr fun d hd => ?_
  obtain ⟨htyped, hpredicates⟩ := (hdeclares d hd).typed herrors
  rw [Substitution.exprs_applyDecl]
  refine List.forall_mem_map.mpr fun e he n hn x hx => ?_
  have hvalue : x.2.value s.subst.assignment = x.2.explicit := by
    rw [Substitution.nodes_applyExpr] at hn
    obtain ⟨n₀, hn₀, rfl⟩ := List.mem_map.mp hn
    rw [Substitution.dispatch?_applyExpr] at hx
    obtain ⟨x₀, hx₀, rfl⟩ := Option.map_eq_some_iff.mp hx
    exact hacyclic.value_applied hord (((htyped e he).nodes n₀ hn₀).within _ (TypedExpr.dispatch?_mem_types hx₀)).1
  obtain ⟨className, hclass, hcases⟩ := ((htyped e he).apply hs).accounted n hn x hx herrors
  refine ⟨className, hclass, ?_⟩
  rcases hcases with ⟨k, hk, -⟩ | ⟨r, hr, hname, hsame⟩ | ⟨m, hm, hmember, hcarried⟩ | hcarried
  · rw [hclasses] at hk
    cases hk
  · left
    obtain ⟨r', hr', hname', hty⟩ := htable n.id r hr
    have hground := Ty.isGround_iff.mp (hs.resolved r (ResolutionTable.entries_of_get hr))
    have hexplicit : r.ty.explicit = r.ty.value s.subst.assignment :=
      Ty.value_congr fun o ho => absurd (List.mem_map_of_mem ho) (hground o.var)
    exact ⟨r', hr', hname'.trans hname, by rw [hty, hexplicit, hsame _ haccepts, hvalue]⟩
  · right
    obtain ⟨m₀, -, rfl⟩ := List.mem_map.mp (Substitution.nodes_applyExpr _ e ▸ hm)
    rw [Substitution.group_applyExpr] at hmember hcarried
    refine ⟨_, ⟨hmember, .inr ⟨s.subst.applyExpr e, ?_, s.subst.applyExpr m₀, hm, ?_⟩⟩, hcarried.demands hacyclic haccepts hvalue⟩
    · rw [Substitution.exprs_applyDecl]
      exact List.mem_map_of_mem he
    · rw [Substitution.group_applyExpr]
  · right
    obtain ⟨b, hb, rfl⟩ := TypedDecl.mem_group_of_mem_exprs (hcarried.imp fun b h => h.1) he
    refine ⟨d.group.map s.subst.applyBinding, ⟨⟨_, List.mem_map_of_mem hb, hn⟩, .inl ?_⟩, ?_⟩
    · rw [Substitution.group_applyDecl]
    · exact (hcarried.apply hs hpredicates).demands hacyclic haccepts hvalue

theorem checkProgram_accounts_letrec :
    let xs := ("xs", Expr.list 0 [])
    let g := ("g", Expr.lambda 4 ["u"] (.binary 3 .eq (.var 1 "xs") (.var 2 "xs")))
    ∃ checker counters events out log, Checker.build .default .prelude ⟨0, 0⟩ = (.ok (checker, counters), events) ∧
      checker.checkProgram ⟨1024, 1024⟩ ⟨[.bindRec 5 [xs, g]], []⟩ = (.ok out, log) ∧
      ∀ d ∈ out.decls, ∀ e ∈ d.exprs, ∀ n ∈ e.nodes, ∀ x ∈ n.dispatch?, ∃ className ∈ x.1,
        (∃ r ∈ out.resolved.get n.id, r.className = className ∧ r.ty.explicit = x.2.explicit) ∨
          ∃ group, d.Around n group ∧ ∃ b ∈ group, b.scheme.Demands className x.2 := by
  intro xs g
  obtain ⟨⟨checker, counters⟩, events, hbuild, -⟩ :=
    exists_ok_of_any (x := Checker.build .default .prelude ⟨0, 0⟩) (P := fun _ => True) (by decide +kernel)
  obtain ⟨hchecker, rfl⟩ := Checker.build_ok hbuild
  obtain ⟨out, log, hok, -⟩ :=
    exists_ok_of_any (x := checker.checkProgram ⟨1024, 1024⟩ ⟨[.bindRec 5 [xs, g]], []⟩) (P := fun _ => True)
      (by rw [hchecker]; decide +kernel)
  have hranked : (checker.checking ⟨1024, 1024⟩ ⟨[.bindRec 5 [xs, g]], []⟩).2.subst.Ranked
      fun v => if v = .type 1024 then 2 else if v = .type 1025 then 1 else 0 := by
    rw [hchecker]
    decide +kernel
  refine ⟨checker, _, events, out, log, hbuild, hok, checkProgram_accounts ?_ (fun t ht => ?_) hok hranked.acyclic⟩
  · rw [hchecker]
    decide +kernel
  · rcases Registry.isDefault_prelude hbuild ht with rfl | rfl <;> exact ⟨rfl, fun _ hr => absurd hr Ty.mem_rows_con⟩

theorem checkProgram_unaccounted :
    let xs := ("xs", Expr.list 0 [])
    let g := ("g", Expr.lambda 4 ["u"] (.binary 3 .eq (.var 1 "xs") (.var 2 "xs")))
    ∃ checker counters events out log, Checker.build .default .prelude ⟨0, 0⟩ = (.ok (checker, counters), events) ∧
      checker.checkProgram ⟨1024, 1024⟩ ⟨[.bindRec 5 [xs, g]], []⟩ = (.ok out, log) ∧
      (((out.decls.flatMap TypedDecl.exprs).flatMap TypedExpr.nodes).map TypedExpr.id).Nodup ∧
      ∃ d ∈ out.decls, ∃ e ∈ d.exprs, ∃ n ∈ e.nodes, ∃ x ∈ n.dispatch?, out.resolved.get n.id = [] ∧
        ∀ group, d.Around n group → ∀ b ∈ group, n ∈ b.value.nodes → b.scheme.predicates = [] := by
  intro xs g
  obtain ⟨⟨checker, counters⟩, events, hbuild, -⟩ :=
    exists_ok_of_any (x := Checker.build .default .prelude ⟨0, 0⟩) (P := fun _ => True) (by decide +kernel)
  obtain ⟨hchecker, rfl⟩ := Checker.build_ok hbuild
  obtain ⟨out, log, hok, hnodup, d, hd, e, he, n, hn, hdispatch, hresolved, hgroups⟩ :=
    exists_ok_of_any (x := checker.checkProgram ⟨1024, 1024⟩ ⟨[.bindRec 5 [xs, g]], []⟩) (P := fun out =>
      (((out.decls.flatMap TypedDecl.exprs).flatMap TypedExpr.nodes).map TypedExpr.id).Nodup ∧
        ∃ d ∈ out.decls, ∃ e ∈ d.exprs, ∃ n ∈ e.nodes, n.dispatch?.isSome ∧ out.resolved.get n.id = [] ∧
          ∀ b ∈ d.group ++ (d.exprs.flatMap TypedExpr.nodes).flatMap TypedExpr.group,
            n.id ∈ b.value.nodes.map TypedExpr.id → b.scheme.predicates = [])
      (by rw [hchecker]; decide +kernel)
  obtain ⟨x, hx⟩ := Option.isSome_iff_exists.mp hdispatch
  refine ⟨checker, _, events, out, log, hbuild, hok, hnodup, d, hd, e, he, n, hn, x, hx, hresolved, fun group hgroup b hb hmem => ?_⟩
  refine hgroups b (List.mem_append.mpr ?_) (List.mem_map_of_mem hmem)
  rcases hgroup.2 with rfl | ⟨e', he', m, hm, rfl⟩
  · exact .inl hb
  · exact .inr (List.mem_flatMap.mpr ⟨m, List.mem_flatMap.mpr ⟨e', he', hm⟩, hb⟩)

end Checker

end RowTyping
