import RowTyping.Proofs.Consistency
import RowTyping.Proofs.Inference.Trees
import RowTyping.Proofs.Instances

namespace RowTyping

namespace ResolutionTable

variable {t : ResolutionTable} {n : TypedExpr} {ns : List TypedExpr} {i : NodeId} {m : String} {e : Resolution}

def nameMethod (t : ResolutionTable) (n : TypedExpr) : ResolutionTable :=
  (n.operatorMethod?.map (t.setMethod n.id)).getD t

theorem foldl_assignMethods (es : List TypedExpr) (t : ResolutionTable) :
    es.foldl assignMethods t = (es.flatMap TypedExpr.nodes).foldl nameMethod t := by
  rw [List.foldl_flatMap]
  rfl

theorem get_setMethod (t : ResolutionTable) (node : NodeId) (m : String) (i : NodeId) : (t.setMethod node m).get i =
    if i = node then (t.get i).map fun r => { r with method := some m } else t.get i := by
  rw [get, find?_setMethod, get]
  cases t.find? i with
  | none => split <;> rfl
  | some es => rfl

theorem get_nameMethod_of_ne (h : n.id = i → n.operatorMethod? = none) : (t.nameMethod n).get i = t.get i := by
  rw [nameMethod]
  cases hm : n.operatorMethod? with
  | none => rfl
  | some m =>
      refine (get_setMethod t n.id m i).trans (if_neg fun heq => ?_)
      rw [h heq.symm] at hm
      cases hm

theorem get_foldl_of_ne (h : ∀ n ∈ ns, n.id = i → n.operatorMethod? = none) : (ns.foldl nameMethod t).get i = t.get i := by
  induction ns generalizing t with
  | nil => rfl
  | cons n ns ih =>
      obtain ⟨hn, hns⟩ := List.forall_mem_cons.mp h
      exact (ih hns).trans (get_nameMethod_of_ne hn)

theorem get_foldl_of_mem (hnodup : (ns.map TypedExpr.id).Nodup) (hn : n ∈ ns) : (ns.foldl nameMethod t).get n.id =
    (t.get n.id).map fun e => { e with method := n.operatorMethod?.or e.method } := by
  induction ns generalizing t with
  | nil => cases hn
  | cons n' ns ih =>
      obtain ⟨hid, hnodup⟩ := List.nodup_cons.mp hnodup
      rcases List.mem_cons.mp hn with rfl | hn
      · rw [List.foldl_cons, get_foldl_of_ne (i := n.id) fun n' hn' heq => absurd (heq ▸ List.mem_map_of_mem hn') hid, nameMethod]
        cases hm : n.operatorMethod? with
        | none => exact (List.map_id _).symm
        | some m => exact (get_setMethod t n.id m n.id).trans (if_pos rfl)
      · rw [List.foldl_cons, ih hnodup hn, get_nameMethod_of_ne fun heq => absurd (heq ▸ List.mem_map_of_mem hn) hid]

theorem record_cases (t : ResolutionTable) (e : Resolution) : t.record e = t ∨
    (∀ e' ∈ t.get e.node, e'.className = e.className → e'.ty ≠ e.ty) ∧
      ∀ i, (t.record e).get i = if i = e.node then t.get e.node ++ [e] else t.get i := by
  rw [record]
  split
  next => exact .inl rfl
  next hany =>
    refine .inr ⟨fun e' he' hname hty => hany (List.any_eq_true.mpr ⟨e', he', by simp [hname, hty]⟩), fun i => ?_⟩
    rw [get, OrderedMap.find?_insert]
    split <;> rfl

end ResolutionTable

namespace Registry

structure Fills (r : Registry) (t : ResolutionTable) : Prop where
  distinct : ∀ i, (t.get i).Pairwise fun e e' => e.className = e'.className → e.ty ≠ e'.ty
  unnamed : ∀ i, ∀ e ∈ t.get i, e.method = none
  found : ∀ i, ∀ e ∈ t.get i, ∃ answer, r.find e.className e.ty = .ok answer

variable {r : Registry} {t : ResolutionTable} {e : Resolution} {k : ClassConstraint}

theorem Fills.record (h : r.Fills t) (hmethod : e.method = none) (hfind : ∃ answer, r.find e.className e.ty = .ok answer) :
    r.Fills (t.record e) := by
  rcases t.record_cases e with heq | ⟨hnew, hget⟩
  · rwa [heq]
  · have hmem {i : NodeId} {e' : Resolution} (he' : e' ∈ (t.record e).get i) : e' ∈ t.get i ∨ e' = e :=
      (ResolutionTable.mem_get_record he').imp_right And.right
    refine ⟨fun i => ?_, fun i e' he' => ?_, fun i e' he' => ?_⟩
    · rw [hget]
      split
      · exact List.pairwise_append.mpr ⟨h.distinct e.node, List.pairwise_singleton _ e, fun e' he' e'' he'' =>
          List.mem_singleton.mp he'' ▸ hnew e' he'⟩
      · exact h.distinct i
    · rcases hmem he' with he' | rfl
      · exact h.unnamed i e' he'
      · exact hmethod
    · rcases hmem he' with he' | rfl
      · exact h.found i e' he'
      · exact hfind

theorem resolve_finds (h : r.resolve k = .ok e) : ∃ answer, r.find e.className e.ty = .ok answer := by
  rw [resolve] at h
  split at h
  · cases h
  · split at h
    · cases h
    next head derived hfind =>
      cases h
      exact ⟨_, hfind⟩

end Registry

namespace Context

variable {r : Registry} {c c' : Context} {ks : List ClassConstraint}

theorem fills_settle (hc : r.Fills c.resolved) (k : ClassConstraint) (told : Bool) : r.Fills (c.settle r k told).resolved := by
  rw [settle]
  split
  next e hresolve =>
    dsimp only
    split
    · exact hc.record (Registry.resolve_ok hresolve).method (Registry.resolve_finds hresolve)
    · exact hc
  next => split <;> exact hc
  next => exact hc

theorem Run.fills (h : Run r c ks c') (hc : c.Grounded) (hfills : r.Fills c.resolved) : r.Fills c'.resolved := by
  induction h with
  | refl => exact hfills
  | quiet hrun hquiet ih => exact hquiet.resolved (hrun.grounded hc) ▸ ih
  | settle _ k told ih => exact fills_settle ih k told

end Context

theorem Substitution.operatorMethod?_applyExpr (s : Substitution) (n : TypedExpr) :
    (s.applyExpr n).operatorMethod? = n.operatorMethod? := by
  cases n <;> rfl

namespace State

variable {s : State} {n : TypedExpr} {e : Resolution}

theorem Serves.dispatched_applied (h : s.Serves n) (hs : s.Ready) (hacyclic : s.subst.Acyclic) (he : e ∈ s.context.resolved.get n.id) :
    ∃ d ∈ n.dispatch?, e.className ∈ d.1 ∧ e.ty = s.subst.apply d.2 := by
  obtain ⟨d, hd, hclass, hunites⟩ := h.dispatched ⟨e.className, e.ty⟩ (.inr ⟨e, he, rfl⟩)
  have hground := Ty.isGround_iff.mp (hs.resolved e (ResolutionTable.entries_of_get he))
  refine ⟨d, hd, hclass, ?_⟩
  rw [← hunites s.subst (.refl _) hacyclic hs.unifier.within.ordered, s.subst.apply_of_free fun v hv => absurd hv (hground v)]

theorem Serves.unique (h : s.Serves n) (hs : s.Ready) (hacyclic : s.subst.Acyclic) {e' : Resolution}
    (he : e ∈ s.context.resolved.get n.id) (he' : e' ∈ s.context.resolved.get n.id) : e.className = e'.className ∧ e.ty = e'.ty := by
  obtain ⟨d, hd, -, hty⟩ := h.dispatched_applied hs hacyclic he
  obtain ⟨d', hd', -, hty'⟩ := h.dispatched_applied hs hacyclic he'
  obtain rfl := Option.some.inj (hd.symm.trans hd')
  exact ⟨h.single _ _ (.inr ⟨e, he, rfl⟩) (.inr ⟨e', he', rfl⟩), hty.trans hty'.symm⟩

theorem Serves.length_le_one (h : s.Serves n) (hs : s.Ready) (hacyclic : s.subst.Acyclic)
    (hdistinct : (s.context.resolved.get n.id).Pairwise fun e e' => e.className = e'.className → e.ty ≠ e'.ty) :
    (s.context.resolved.get n.id).length ≤ 1 := by
  have hunique : ∀ e ∈ s.context.resolved.get n.id, ∀ e' ∈ s.context.resolved.get n.id, e.className = e'.className ∧ e.ty = e'.ty :=
    fun e he e' he' => h.unique hs hacyclic he he'
  generalize s.context.resolved.get n.id = es at hdistinct hunique
  rcases es with _ | ⟨e, _ | ⟨e', es⟩⟩
  · exact Nat.zero_le 1
  · exact Nat.le_refl 1
  · have hmem : e' ∈ e :: e' :: es := List.mem_cons_of_mem e List.mem_cons_self
    obtain ⟨hname, hty⟩ := hunique e List.mem_cons_self e' hmem
    exact absurd hty ((List.pairwise_cons.mp hdistinct).1 e' List.mem_cons_self hname)

theorem Serves.explicit_applied (h : s.Serves n) (hs : s.Ready) (hacyclic : s.subst.Acyclic) (haccepts : s.Accepts s.subst.assignment)
    (hwithin : ∀ t ∈ n.types, t.Within s.supply) : ∀ d ∈ n.dispatch?, ∀ t ∈ n.operands,
      (s.subst.apply t).explicit = (s.subst.apply d.2).explicit := by
  intro d hd t ht
  have hord := hs.unifier.within.ordered
  rw [← hacyclic.value_assignment hord (hwithin t (n.operands_subset_types t ht)).1,
    ← hacyclic.value_assignment hord (hwithin d.2 (TypedExpr.dispatch?_mem_types hd)).1, h.operands d hd t ht _ haccepts]

end State

/-- The dictionary is what the operator needs: for a class that the operator dispatches on, for the type of its operand, with the
method that the operator calls, which the instance provides. The other operand has the same type, in the same spelling if nothing in
it is an application. -/
structure Registry.Equips (r : Registry) (n : TypedExpr) (e : Resolution) : Prop where
  dispatched : ∃ d ∈ n.dispatch?, e.className ∈ d.1 ∧ e.ty = d.2
  operands : ∀ t ∈ n.operands, t.explicit = e.ty.explicit ∧ (e.ty.Shaped → t = e.ty)
  method : ∃ m ∈ n.operatorMethod?, e.method = some m ∧ ∃ i, r.lookup e.className e.ty = some i ∧ (i.method? m).isSome

def CheckedProgram.nodes (out : CheckedProgram) : List TypedExpr :=
  (out.decls.flatMap TypedDecl.exprs).flatMap TypedExpr.nodes

namespace Checker

open InferM State

variable {config : Config} {checker : Checker} {counters counters' : Counters} {supply : Supply} {events log : List Event}

theorem hosts_start (hbuild : Checker.build config .prelude counters = (.ok (checker, counters'), events))
    (htypes : counters'.nextType ≤ supply.nextType) (hrowVars : counters'.nextRow ≤ supply.nextRow) (signatures : EffectSignatures) :
    (State.start checker supply none).Hosts (checker.session signatures) checker.globals where
  ready := ready_start nofun
  owned := ownsEnv_build hbuild htypes hrowVars (ready_start nofun) nofun
  supports := supports_start (fun t ht => by
    rcases Registry.isDefault_prelude hbuild ht with rfl | rfl <;> exact ⟨rfl, fun _ hr => absurd hr Ty.mem_rows_con⟩) signatures
  plain := rfl

theorem spares_start (ids : List NodeId) : (State.start checker supply none).Spares ids := by
  obtain ⟨-, -, -, hclasses, hresolved⟩ := State.context_start checker supply none
  rintro i - p (⟨k, hk, -⟩ | ⟨r, hr, -⟩)
  · change k ∈ (checker.context supply).classes.toList at hk
    rw [hclasses] at hk
    cases hk
  · change r ∈ (checker.context supply).resolved.get i at hr
    rw [hresolved] at hr
    cases hr

theorem fills_checking (checker : Checker) (supply : Supply) (p : Program) :
    checker.registry.Fills (checker.checking supply p).2.resolved := by
  obtain ⟨ks, hrun, -⟩ := checker.reaches_checking supply p
  apply hrun.fills (checker.grounded_context supply)
  rw [(State.context_start checker supply none).2.2.2.2]
  exact ⟨fun _ => .nil, fun _ => List.forall_mem_nil _, fun _ => List.forall_mem_nil _⟩

theorem checking_tracks (hbuild : Checker.build config .prelude counters = (.ok (checker, counters'), events))
    (htypes : counters'.nextType ≤ supply.nextType) (hrowVars : counters'.nextRow ≤ supply.nextRow) (p : Program) :
    ∃ s : State, s.context = (checker.checking supply p).2 ∧ s.Ready ∧
      (∀ d ∈ (checker.checking supply p).1, s.Declares (checker.session p.signatures) .anywhere d) ∧
      (State.start checker supply none).Tracks (p.decls.flatMap Decl.nodeIds)
        (((checker.checking supply p).1.flatMap TypedDecl.exprs).flatMap TypedExpr.nodes) s := by
  have hhosts := hosts_start hbuild htypes hrowVars p.signatures
  have hanywhere : ∀ env e, Sites.anywhere env e := fun _ _ => trivial
  have hdeclares := keeps_checkDecls hanywhere hhosts.ready hhosts.owned hhosts.supports p.decls
  obtain ⟨l, -, hready, ⟨hdeclares, -⟩, htracks⟩ := hdeclares.and rfl (keeps_checkDecls_tracks hhosts p.decls)
  exact ⟨_, rfl, hready, hdeclares, htracks⟩

theorem exportedProgram_resolved {x : List TypedDecl × Context} {out : CheckedProgram}
    (h : checker.exportedProgram x = (.ok out, log)) : out.resolved = out.nodes.foldl ResolutionTable.nameMethod x.2.resolved := by
  obtain ⟨-, events, hfinish⟩ := exportedProgram_eq_ok h
  exact (finish_eq_ok hfinish).2.trans (ResolutionTable.foldl_assignMethods _ _)

theorem serves_equips (hbuild : Checker.build config .prelude counters = (.ok (checker, counters'), events)) {s : State} {n : TypedExpr}
    (h : s.Serves n) (hs : s.Ready) (hacyclic : s.subst.Acyclic) (haccepts : s.Accepts s.subst.assignment)
    (hwithin : ∀ t ∈ n.types, t.Within s.supply) (hfills : checker.registry.Fills s.context.resolved) {e : Resolution}
    (he : e ∈ s.context.resolved.get n.id) :
    checker.registry.Equips (s.subst.applyExpr n) { e with method := n.operatorMethod?.or e.method } := by
  obtain ⟨d, hd, hclass, hty⟩ := h.dispatched_applied hs hacyclic he
  obtain ⟨answer, hfind⟩ := hfills.found n.id e he
  obtain ⟨m, hm, hprovides⟩ := Prelude.provides_build hbuild hd hclass hfind
  refine ⟨⟨(d.1, s.subst.apply d.2), ?_, hclass, hty⟩, ?_, m, ?_, ?_, hprovides⟩
  · rw [Substitution.dispatch?_applyExpr]
    exact Option.mem_map_of_mem _ hd
  · rw [Substitution.operands_applyExpr]
    refine List.forall_mem_map.mpr fun t ht => ?_
    have hexplicit : (s.subst.apply t).explicit = e.ty.explicit := hty ▸ h.explicit_applied hs hacyclic haccepts hwithin d hd t ht
    exact ⟨hexplicit, fun hshaped => (Prelude.regular_build hbuild).eq_of_explicit hshaped hfind hexplicit⟩
  · rwa [Substitution.operatorMethod?_applyExpr]
  · exact congrArg (·.or e.method) hm

theorem checkProgram_equips (hbuild : Checker.build config .prelude counters = (.ok (checker, counters'), events))
    (htypes : counters'.nextType ≤ supply.nextType) (hrowVars : counters'.nextRow ≤ supply.nextRow) {p : Program} {out : CheckedProgram}
    (hok : checker.checkProgram supply p = (.ok out, log)) (hacyclic : (checker.checking supply p).2.subst.Acyclic)
    (hnodup : (p.decls.flatMap Decl.nodeIds).Nodup) :
    (∀ n ∈ out.nodes, n.isVar = false →
      (out.resolved.get n.id).length ≤ 1 ∧ ∀ e ∈ out.resolved.get n.id, checker.registry.Equips n e) ∧
    (∀ n ∈ out.nodes, n.operatorMethod? = none → ∀ e ∈ out.resolved.get n.id, e.method = none) ∧
    ∀ i ∉ out.nodes.map TypedExpr.id, out.resolved.get i = [] := by
  obtain ⟨s, hcontext, hs, hdeclares, htracks⟩ := checking_tracks hbuild htypes hrowVars p
  have hfills := checker.fills_checking supply p
  have hequations := checking_equations checker supply p
  rw [checkProgram_eq] at hok
  generalize checker.checking supply p = x at *
  obtain ⟨decls, c⟩ := x
  obtain rfl : c = s.context := hcontext.symm
  obtain ⟨hdecls, herrors, -⟩ := exportedProgram_ok hok
  have haccepts := hs.accepts_assignment hacyclic herrors hequations
  have hnodes : out.nodes = ((decls.flatMap TypedDecl.exprs).flatMap TypedExpr.nodes).map s.subst.applyExpr := by
    rw [CheckedProgram.nodes, hdecls, ← Substitution.nodes_map_applyExpr, List.flatMap_map, List.map_flatMap]
    simp only [Substitution.exprs_applyDecl]
  have hids : (out.nodes.map TypedExpr.id).Perm (p.decls.flatMap Decl.nodeIds) := by
    rw [hnodes, List.map_map, show TypedExpr.id ∘ s.subst.applyExpr = TypedExpr.id from funext s.subst.id_applyExpr]
    exact htracks.perm
  have hwithin : ∀ n ∈ (decls.flatMap TypedDecl.exprs).flatMap TypedExpr.nodes, ∀ t ∈ n.types, t.Within s.supply := by
    intro n hn
    obtain ⟨e, he, hn⟩ := List.mem_flatMap.mp hn
    obtain ⟨d, hd, he⟩ := List.mem_flatMap.mp he
    exact ((((hdeclares d hd).typed herrors).1 e he).nodes n hn).within
  have hget (n : TypedExpr) (hn : n ∈ out.nodes) : out.resolved.get n.id =
      (s.context.resolved.get n.id).map fun e => { e with method := n.operatorMethod?.or e.method } := by
    rw [exportedProgram_resolved hok]
    exact ResolutionTable.get_foldl_of_mem (hids.nodup_iff.mpr hnodup) hn
  refine ⟨fun n hn hvar => ?_, fun n hn hmethod e he => ?_, fun i hi => ?_⟩
  · rw [hget n hn]
    obtain ⟨n₀, hn₀, rfl⟩ := List.mem_map.mp (hnodes ▸ hn)
    rw [Substitution.isVar_applyExpr] at hvar
    rw [Substitution.id_applyExpr, Substitution.operatorMethod?_applyExpr, List.length_map]
    have hserves := htracks.serves hnodup (spares_start _) n₀ hn₀ hvar
    exact ⟨hserves.length_le_one hs hacyclic (hfills.distinct _), List.forall_mem_map.mpr fun e he =>
      serves_equips hbuild hserves hs hacyclic haccepts (hwithin n₀ hn₀) hfills he⟩
  · rw [hget n hn] at he
    obtain ⟨e₀, he₀, rfl⟩ := List.mem_map.mp he
    rw [hmethod]
    exact hfills.unnamed n.id e₀ he₀
  · rw [exportedProgram_resolved hok, ResolutionTable.get_foldl_of_ne fun n hn heq => absurd (List.mem_map_of_mem hn) (heq ▸ hi)]
    refine List.eq_nil_iff_forall_not_mem.mpr fun e he => ?_
    obtain ⟨q, hq, -⟩ := htracks.traces i (fun hmem => hi (hids.symm.subset hmem)) _ (.inr ⟨e, he, rfl⟩)
    exact spares_start [i] i (List.mem_singleton_self i) q hq

theorem checkProgram_equips_deferred :
    let body := Expr.letIn 2 "d" (.binary 3 .mod (.var 4 "x") (.lit 5 (.int 2))) (.binary 6 .eq (.var 7 "d") (.unary 8 .neg (.lit 9 (.int 1))))
    let p : Program := ⟨[.expr (.app 0 (.lambda 1 ["x"] body) [.lit 10 (.int 7)])], []⟩
    ∃ checker counters events out log, Checker.build .default .prelude ⟨0, 0⟩ = (.ok (checker, counters), events) ∧
      checker.checkProgram ⟨1024, 1024⟩ p = (.ok out, log) ∧ out.resolved.entries.length = 3 ∧
      (∀ n ∈ out.nodes, n.isVar = false →
        (out.resolved.get n.id).length ≤ 1 ∧ ∀ e ∈ out.resolved.get n.id, checker.registry.Equips n e) ∧
      (∀ n ∈ out.nodes, n.operatorMethod? = none → ∀ e ∈ out.resolved.get n.id, e.method = none) ∧
      ∀ i ∉ out.nodes.map TypedExpr.id, out.resolved.get i = [] := by
  intro body p
  obtain ⟨⟨checker, counters⟩, events, hbuild, -⟩ :=
    exists_ok_of_any (x := Checker.build .default .prelude ⟨0, 0⟩) (P := fun _ => True) (by decide +kernel)
  obtain ⟨hchecker, rfl⟩ := Checker.build_ok hbuild
  obtain ⟨out, log, hok, hentries⟩ :=
    exists_ok_of_any (x := checker.checkProgram ⟨1024, 1024⟩ p) (P := fun out => out.resolved.entries.length = 3)
      (by rw [hchecker]; decide +kernel)
  have hranked : (checker.checking ⟨1024, 1024⟩ p).2.subst.Ranked fun v =>
      if v = .type 1024 then 3 else if v = .type 1025 then 2 else if v = .type 1026 then 1 else 0 := by
    rw [hchecker]
    decide +kernel
  exact ⟨checker, _, events, out, log, hbuild, hok, hentries,
    checkProgram_equips hbuild (by decide) (by decide) hok hranked.acyclic (by decide)⟩

end Checker

end RowTyping
