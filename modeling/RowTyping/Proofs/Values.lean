import RowTyping.Proofs.Inference.Closing
import RowTyping.Proofs.Typing

namespace RowTyping

namespace Effects

theorem unionAll_replicate (n : Nat) : unionAll (List.replicate n none) = none := by
  rw [unionAll]
  induction n with
  | zero => rfl
  | succ n ih => rw [List.replicate_succ, List.foldl_cons, union, ih]

end Effects

namespace InferM

variable {c : Context} {session : Session}

theorem joinEffects_pure (node : NodeId) {rows : List Effects} (h : ∀ e ∈ rows, e = none) :
    Ensures (joinEffects node rows) c fun e _ => e = none := by
  obtain ⟨n, rfl⟩ : ∃ n, rows = List.replicate n none := ⟨rows.length, List.eq_replicate_iff.mpr ⟨rfl, h⟩⟩
  have happlied : (List.replicate n none).map c.subst.applyEffects = List.replicate n none := List.map_replicate
  have htails : (List.replicate n (none : Effects)).filterMap Effects.tail = [] :=
    List.filterMap_eq_nil_iff.mpr fun e he => List.eq_of_mem_replicate he ▸ rfl
  apply ensures_get
  simp only [happlied, htails]
  refine ensures_get (f := fun c => pure (Effects.normalize (c.subst.applyEffects (.unionAll (.replicate n none))))) (ensures_pure ?_)
  rw [Effects.unionAll_replicate]
  rfl

theorem joining_pure {node : NodeId} {rows : List Effects} (h : ∀ e ∈ rows, e = none) {f : Effects → TypedExpr}
    (hf : ∀ effects, (f effects).effects = effects) :
    Ensures (joinEffects node rows >>= fun effects => pure (f effects)) c fun typed _ => typed.effects = none :=
  (joinEffects_pure node h).bind fun effects _ heffects => ensures_pure ((hf effects).trans heffects)

section Values

theorem pure_of_noted {m : InferM TypedExpr} (h : Ensures m c fun typed _ => typed.effects = none) (e : Expr) :
    Ensures (noted e m) c fun typed _ => typed.effects = none :=
  h.noted fun _ _ htyped => htyped

mutual

theorem inferExpr_value (session : Session) (env : Env) : ∀ (e : Expr) (c : Context), e.isValue = true →
    Ensures (inferExpr session env e) c fun typed _ => typed.effects = none
  | .lit .., _, _ => pure_of_noted (ensures_after fun _ _ => ensures_pure rfl) _
  | .lambda .., _, _ => pure_of_noted (ensures_after fun _ _ => ensures_pure rfl) _
  | .record _ fs, c, h => pure_of_noted ((inferFields_values session env duplicateField [] fs c h).bind fun _ _ hfields =>
      joining_pure (List.forall_mem_map.mpr hfields) fun _ => rfl) _
  | .list _ es, _, h => pure_of_noted (ensures_after fun _ c' => by
      refine (inferExprs_values session env _ es c' h).bind fun _ _ helems => ?_
      exact joining_pure (List.forall_mem_map.mpr helems) fun _ => rfl) _
  | .tuple _ es, c, h => pure_of_noted ((inferExprs_values session env _ es c h).bind fun _ _ helems =>
      joining_pure (List.forall_mem_map.mpr helems) fun _ => rfl) _

theorem inferExprs_values (session : Session) (env : Env) (after : TypedExpr → InferM Unit) : ∀ (es : List Expr) (c : Context),
    Expr.areValues es = true → Ensures (inferExprs session env after es) c fun typed _ => ∀ e ∈ typed, e.effects = none
  | [], _, _ => ensures_pure (List.forall_mem_nil _)
  | e :: es, c, h => by
      obtain ⟨he, hes⟩ := Bool.and_eq_true_iff.mp h
      refine (inferExpr_value session env e c he).bind fun e _ he => ?_
      refine ensures_after fun _ c' => ?_
      exact (inferExprs_values session env after es c' hes).bind fun _ _ hes => ensures_pure (List.forall_mem_cons.mpr ⟨he, hes⟩)

theorem inferFields_values (session : Session) (env : Env) (after : List String → String → TypedExpr → InferM Unit)
    (earlier : List String) : ∀ (fs : List (String × Expr)) (c : Context), Expr.areValuesFields fs = true →
      Ensures (inferFields session env after earlier fs) c fun typed _ => ∀ f ∈ typed, f.2.effects = none
  | [], _, _ => ensures_pure (List.forall_mem_nil _)
  | (name, e) :: fs, c, h => by
      obtain ⟨he, hfs⟩ := Bool.and_eq_true_iff.mp h
      have hlabelled : Ensures (within (fieldLabel name) (inferExpr session env e)) c fun typed _ => typed.effects = none := by
        apply ensures_modify
        refine (inferExpr_value session env e _ he).bind fun _ _ htyped => ?_
        exact ensures_modify (ensures_pure htyped)
      refine hlabelled.bind fun e _ he => ?_
      refine ensures_after fun _ c' => ?_
      exact (inferFields_values session env after _ fs c' hfs).bind fun _ _ hfs => ensures_pure (List.forall_mem_cons.mpr ⟨he, hfs⟩)

end

theorem inferValues_values (session : Session) (env : Env) (ts : List Ty) (bs : List Binding) (c : Context)
    (h : bs.all fun b => b.2.isValue) : Ensures (inferValues session env ts bs) c fun typed _ => ∀ e ∈ typed, e.effects = none := by
  induction bs generalizing ts c with
  | nil => exact ensures_pure (List.forall_mem_nil _)
  | cons b bs ih =>
      obtain ⟨hb, hbs⟩ := Bool.and_eq_true_iff.mp h
      refine (inferExpr_value session env b.2 c hb).bind fun e _ he => ?_
      refine ensures_after fun _ c' => ?_
      exact (ih ts.tail c' hbs).bind fun _ _ hes => ensures_pure (List.forall_mem_cons.mpr ⟨he, hes⟩)

end Values

section Boundaries

theorem effects_applyExpr {s : Substitution} {e : TypedExpr} (h : e.effects = none) : (s.applyExpr e).effects = none := by
  rw [TypedExpr.effects, Substitution.info_applyExpr]
  exact congrArg s.applyEffects h

theorem closeBoundary_mono (session : Session) (env : Env) (node : NodeId) (ts : List Ty) (level : BindingLevel) :
    Ensures (closeBoundary session env node ts level false) c fun schemes _ => ∀ scheme ∈ schemes, scheme.isMono = true := by
  rw [closeBoundary_eq]
  refine ensures_after fun cl _ => ?_
  refine .bind (Q := fun schemes _ => schemes = cl.types.map .mono) (ensures_pure rfl) fun schemes _ hschemes => ?_
  refine ensures_after fun _ _ => ensures_pure ?_
  rw [hschemes]
  exact List.forall_mem_map.mpr fun _ _ => rfl

theorem inferBinding_value (session : Session) (env : Env) {e : Expr} (h : e.isValue = true) (level : BindingLevel) :
    Ensures (inferBinding session env e level) c fun out _ => out.2.effects = none := by
  apply ensures_modify
  refine (inferExpr_value session env e _ h).bind fun _ _ htyped => ?_
  refine ensures_after fun _ _ => ?_
  exact ensures_get (ensures_pure (effects_applyExpr htyped))

theorem inferBinding_poly (session : Session) (env : Env) (e : Expr) (level : BindingLevel) :
    Ensures (inferBinding session env e level) c fun out _ => out.1.isMono = false → out.2.effects = none := by
  by_cases h : e.isValue = true
  · exact (inferBinding_value session env h level).mono fun _ _ hpure _ => hpure
  · apply ensures_modify
    refine ensures_after fun typed _ => ?_
    rw [Bool.eq_false_of_not_eq_true h]
    refine (closeBoundary_mono session env _ _ level).bind fun schemes _ hmono => ?_
    apply ensures_get
    refine ensures_pure fun hpoly => ?_
    cases schemes with
    | nil => cases hpoly
    | cons scheme _ => exact absurd (hmono scheme List.mem_cons_self) (by simp [show scheme.isMono = false from hpoly])

theorem inferRecGroup_poly (session : Session) (env : Env) (node : NodeId) (bs : List Binding) (level : BindingLevel) :
    Ensures (inferRecGroup session env node bs level) c fun out _ => ∀ b ∈ out, b.scheme.isMono = false → b.value.effects = none := by
  rw [inferRecGroup, recGroup]
  apply ensures_modify
  refine ensures_after fun ts c' => ?_
  by_cases h : (bs.all fun b => b.2.isValue) = true
  · refine (inferValues_values session _ ts bs c' h).bind fun values _ hvalues => ?_
    refine ensures_after fun schemes _ => ?_
    apply ensures_get
    refine ensures_pure fun b hb _ => ?_
    obtain ⟨⟨name, value, scheme⟩, hmem, rfl⟩ := List.mem_map.mp hb
    exact effects_applyExpr (hvalues value (List.of_mem_zip (List.of_mem_zip hmem).2).1)
  · rw [Bool.eq_false_of_not_eq_true h]
    refine ensures_after fun values _ => ?_
    refine (closeBoundary_mono session env _ _ level).bind fun schemes _ hmono => ?_
    apply ensures_get
    refine ensures_pure fun b hb hpoly => ?_
    obtain ⟨⟨name, value, scheme⟩, hmem, rfl⟩ := List.mem_map.mp hb
    exact absurd (hmono scheme (List.of_mem_zip (List.of_mem_zip hmem).2).2) (by simp [show scheme.isMono = false from hpoly])

theorem inferExpr_value_pure (session : Session) (env : Env) {e : Expr} (h : e.isValue = true) (c : Context) :
    let typed := ((inferExpr session env e).run c).1
    (typed.effects = none ∧ ∀ s : Substitution, (s.applyExpr typed).effects = none) ∧
      ∀ level, ((inferBinding session env e level).run c).1.2.effects = none :=
  ⟨⟨inferExpr_value session env e c h, fun _ => effects_applyExpr (inferExpr_value session env e c h)⟩, inferBinding_value session env h⟩

theorem inferExpr_value_pure_nested :
    let shout : Expr := .lambda 3 ["s"] (.app 2 (.var 0 "print") [.var 1 "s"])
    let e : Expr := .record 9 [("a", .list 6 [.lit 4 (.int 1), .lit 5 (.string "x")]), ("a", .tuple 8 [shout, .lit 7 (.bool true)])]
    let env := Env.empty.nest [("print", .mono (.fn [.string] (Effects.closed ["IO"]) .string))]
    let session : Session := ⟨.prelude, .default, []⟩
    let c := Context.ofSupply ⟨100, 100⟩
    let out := (inferExpr session env e).run c
    e.isValue = true ∧ out.1.effects = none ∧ ((inferBinding session env e .nested).run c).1.2.effects = none ∧
      out.2.errors.map Diagnostic.category = [.fieldMismatch] ∧
      out.1.ty = .record (.closedRecord [("a", .tuple [.fn [.ofVar 102] (Effects.closed ["IO"]) .string, .bool])]) := by
  intro shout e env session c out
  have h : e.isValue = true := rfl
  obtain ⟨⟨hpure, -⟩, hbinding⟩ := inferExpr_value_pure session env h c
  exact ⟨h, hpure, hbinding .nested, by decide +kernel, by decide +kernel⟩

end Boundaries

end InferM

end RowTyping
