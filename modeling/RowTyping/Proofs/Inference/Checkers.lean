import RowTyping.Proofs.Inference.Programs
import RowTyping.Proofs.Registry.Calls

namespace RowTyping

def Layout.records (positional : Bool) : Layout where
  positional := positional
  tracks k := k == .recordRow
  tracks_records := rfl
  fields _ := none
  held t := t = .unit
  held_subst := by
    rintro t σ ρ rfl
    exact Ty.subst_con ..

theorem Layout.records_records (positional : Bool) : (records positional).Records :=
  ⟨fun _ => rfl, fun _ => Iff.rfl⟩

namespace State

variable {checker : Checker} {supply : Supply} {l : Option Layout}

def start (checker : Checker) (supply : Supply) (l : Option Layout) : State :=
  ⟨checker.context supply, l⟩

theorem context_start (checker : Checker) (supply : Supply) (l : Option Layout) : (start checker supply l).subst = .empty ∧ (start checker supply l).supply = supply ∧
    (checker.context supply).equations = .empty ∧ (checker.context supply).classes = .empty ∧
    (checker.context supply).resolved = [] := by
  have hcontext : checker.context supply = .ofSupply supply ∨ checker.context supply = (Context.ofSupply supply).enableTracing := by
    rw [Checker.context]
    split
    · exact .inr rfl
    · exact .inl rfl
  rw [subst, State.supply, start]
  rcases hcontext with h | h <;> rw [h] <;> exact ⟨rfl, rfl, rfl, rfl, rfl⟩

theorem ready_start (hl : ∀ φ ∈ l, φ.Records) : (start checker supply l).Ready := by
  obtain ⟨hsubst, hsupply, hequations, hclasses, hresolved⟩ := context_start checker supply l
  refine ⟨Unifier.ready_empty hsubst, hl, fun φ _ => ?_, fun φ _ => ?_, ?_, ?_, ?_⟩
  · rw [hsubst]
    exact Substitution.conforms_empty φ Nowhere
  · rw [hsubst]
    exact ⟨nofun, nofun⟩
  · change ∀ q ∈ (checker.context supply).equations.toList, _
    rw [hequations]
    exact List.forall_mem_nil _
  · change ∀ k ∈ (checker.context supply).classes.toList, _
    rw [hclasses]
    exact List.forall_mem_nil _
  · change ∀ e ∈ (checker.context supply).resolved.entries, _
    rw [hresolved]
    exact List.forall_mem_nil _

end State

namespace State

variable {s : State}

theorem Ready.accepts_assignment (hs : s.Ready) (hacyclic : s.subst.Acyclic) (herrors : s.context.errors = [])
    (hequations : s.context.equations = .empty) : s.Accepts s.subst.assignment where
  ordered := s.subst.assignment_ordered hs.unifier.within.ordered
  models := hacyclic.models hs.unifier.within.ordered
  errors := herrors
  equations := by
    rw [hequations]
    exact List.forall_mem_nil _
  respects φ hφ q _ := (hs.conforms φ hφ).respects (fun _ => False.elim) hs.unifier.within.ordered q

theorem NodeTyped.rule_applyExpr {session : Session} (hs : s.Ready) (hrowed : s.Rowed) (haccepts : s.Accepts s.subst.assignment)
    (hacyclic : s.subst.Acyclic) {n : TypedExpr} (hn : s.NodeTyped session sites n) : (s.subst.applyExpr n).Rule Ty.explicit :=
  Substitution.rule_applyExpr _ ((hn.rule hrowed _ haccepts).congr fun t ht =>
    hacyclic.value_assignment hs.unifier.within.ordered (hn.within t ht).1)

end State

namespace Registry

variable {r : Registry}

theorem classes_registerAll (p : Provider) (instances : List ClassInstance) :
    ∀ e ∈ (empty.registerAll p.classes instances).2.classes, e.2 ∈ p.classes := by
  have hclasses : ∀ e ∈ (empty.register registerClass p.classes).2.classes, e.2 ∈ p.classes := by
    refine register_invariant (P := fun r => ∀ e ∈ r.classes, e.2 ∈ p.classes) steady_registerClass
      (fun decl hdecl r r' hr hadd e he => ?_) (List.forall_mem_nil _)
    obtain ⟨-, -, -, rfl⟩ := registerClass_ok hadd
    rcases OrderedMap.mem_insert he with rfl | he
    · exact hdecl
    · exact hr e he
  refine register_invariant (P := fun r => ∀ e ∈ r.classes, e.2 ∈ p.classes) steady_registerInstance
    (fun i _ r r' hr hadd => ?_) hclasses
  obtain ⟨-, -, decl, -, rfl⟩ := registerInstance_ok hadd
  exact hr

end Registry

section Build

variable {config : Config} {p : Provider} {counters counters' : Counters} {checker : Checker} {events : List Event}

theorem Checker.build_ok (h : Checker.build config p counters = (.ok (checker, counters'), events)) :
    checker = ⟨config, { (Checker.buildRegistry config p).2 with moduleDefault := p.moduleDefault }.freeze,
      Env.empty.bindAll (p.values counters.allocate.1).1⟩ ∧ counters' = counters.allocate.2 := by
  simp only [Checker.build] at h
  split at h
  · obtain ⟨rfl, rfl⟩ := Prod.mk.inj (Except.ok.inj (congrArg Prod.fst h))
    exact ⟨rfl, rfl⟩
  · cases congrArg Prod.fst h

theorem Registry.isDefault_build (h : Checker.build config p counters = (.ok (checker, counters'), events)) {t : Ty}
    (ht : checker.registry.IsDefault t) : t = p.moduleDefault ∨ ∃ decl ∈ p.classes, decl.defaultType = some t := by
  obtain ⟨rfl, -⟩ := Checker.build_ok h
  rcases ht with ht | ⟨className, ht⟩
  · exact .inl ht
  · obtain ⟨decl, hdecl, ht⟩ := Option.bind_eq_some_iff.mp ht
    have hclasses : (Checker.buildRegistry config p).2.classes = (empty.registerAll p.classes
        (if config.loadInstances then p.instances else [])).2.classes := by
      rw [Checker.buildRegistry]
      split
      next heq =>
        rw [heq]
        cases config.loadInstances <;> rfl
    have hdecl : (Checker.buildRegistry config p).2.classes.find? className = some decl := hdecl
    rw [hclasses] at hdecl
    exact .inr ⟨decl, classes_registerAll p _ _ (OrderedMap.mem_of_find? hdecl), ht⟩

theorem Prelude.defaultType_of_mem : ∀ decl ∈ Prelude.classes, ∀ t ∈ decl.defaultType, t = .int ∨ t = .float := by
  decide

theorem Registry.isDefault_prelude (h : Checker.build config .prelude counters = (.ok (checker, counters'), events)) {t : Ty}
    (ht : checker.registry.IsDefault t) : t = .int ∨ t = .float := by
  rcases Registry.isDefault_build h ht with rfl | ⟨decl, hdecl, ht⟩
  · exact .inl rfl
  · exact Prelude.defaultType_of_mem decl hdecl t ht

end Build

section Export

namespace ResolutionTable

variable {t t₁ t' : ResolutionTable}

def Holds (t t' : ResolutionTable) : Prop :=
  ∀ node, ∀ e ∈ t.get node, ∃ e' ∈ t'.get node, e'.className = e.className ∧ e'.ty = e.ty

theorem Holds.refl (t : ResolutionTable) : t.Holds t :=
  fun _ e he => ⟨e, he, rfl, rfl⟩

theorem Holds.trans (h : t.Holds t₁) (h' : t₁.Holds t') : t.Holds t' := by
  intro node e he
  obtain ⟨e₁, he₁, hname₁, hty₁⟩ := h node e he
  obtain ⟨e', he', hname', hty'⟩ := h' node e₁ he₁
  exact ⟨e', he', hname'.trans hname₁, hty'.trans hty₁⟩

theorem find?_setMethod (t : ResolutionTable) (node : NodeId) (method : String) (n : NodeId) :
    (t.setMethod node method).find? n = (t.find? n).map fun es =>
      if n = node then es.map fun r => { r with method := some method } else es := by
  induction t with
  | nil => rfl
  | cons b t ih =>
      rw [setMethod, List.map_cons, OrderedMap.find?_cons, OrderedMap.find?_cons]
      rw [setMethod] at ih
      have hkey : (if b.1 = node then (b.1, b.2.map fun r => { r with method := some method }) else b).1 = b.1 := by
        split <;> rfl
      rw [hkey, ih]
      split
      next heq => rw [heq, Option.map_some]; split <;> rfl
      next => rfl

theorem holds_setMethod (t : ResolutionTable) (node : NodeId) (method : String) : t.Holds (t.setMethod node method) := by
  intro n e he
  rw [get] at he ⊢
  rw [find?_setMethod]
  cases hfind : t.find? n with
  | none => rw [hfind] at he; cases he
  | some es =>
      rw [hfind] at he
      rw [Option.map_some, Option.getD_some]
      split
      · exact ⟨_, List.mem_map_of_mem he, rfl, rfl⟩
      · exact ⟨e, he, rfl, rfl⟩

theorem holds_foldl {α : Type} {f : ResolutionTable → α → ResolutionTable} (h : ∀ t a, Holds t (f t a)) (as : List α)
    (t : ResolutionTable) : t.Holds (as.foldl f t) := by
  induction as generalizing t with
  | nil => exact .refl t
  | cons a as ih => exact (h t a).trans (ih (f t a))

theorem holds_assignMethods (t : ResolutionTable) (e : TypedExpr) : t.Holds (t.assignMethods e) := by
  refine holds_foldl (fun t node => ?_) e.nodes t
  cases node.operatorMethod? with
  | none => exact .refl t
  | some method => exact t.holds_setMethod node.id method

end ResolutionTable

variable {checker : Checker} {exprs : List TypedExpr} {c : Context} {events : List Event}

theorem Checker.finish_eq_ok {table : ResolutionTable} (h : Checker.finish exprs c = (.ok table, events)) :
    c.errors = [] ∧ table = exprs.foldl ResolutionTable.assignMethods c.resolved := by
  rw [finish] at h
  split at h
  · cases h
  next herrors =>
    have htable := congrArg Prod.fst h
    simp only [ResolutionTable.check] at htable
    split at htable
    · cases htable
    · cases htable
      exact ⟨herrors, rfl⟩
  · cases h

theorem Checker.finish_ok {table : ResolutionTable} (h : Checker.finish exprs c = (.ok table, events)) :
    c.errors = [] ∧ c.resolved.Holds table := by
  obtain ⟨herrors, rfl⟩ := finish_eq_ok h
  exact ⟨herrors, ResolutionTable.holds_foldl ResolutionTable.holds_assignMethods exprs _⟩

theorem Checker.exists_ok_of_any {ε α β : Type} {x : Except ε α × β} {P : α → Prop} [DecidablePred P]
    (h : x.1.toOption.any (fun a => P a) = true) : ∃ a b, x = (.ok a, b) ∧ P a := by
  obtain ⟨_ | a, b⟩ := x
  · cases h
  · exact ⟨a, b, rfl, of_decide_eq_true h⟩

end Export

end RowTyping
