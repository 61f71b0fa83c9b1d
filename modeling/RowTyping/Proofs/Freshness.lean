import RowTyping.Proofs.Freshness.Scopes
import RowTyping.Proofs.Inference.Checkers

namespace RowTyping

open Walk

theorem Registry.isGround_of_isDefault_prelude {t : Ty} (h : Registry.prelude.IsDefault t) : t.isGround = true := by
  rcases h with rfl | ⟨className, h⟩
  · decide
  · obtain ⟨decl, hdecl, ht⟩ := Option.bind_eq_some_iff.mp h
    have hmem := classes_registerAll .prelude Prelude.instances _ (OrderedMap.mem_of_find? hdecl)
    rcases Prelude.defaultType_of_mem decl hmem t ht with rfl | rfl <;> rfl

namespace Stacked

variable {old : List Var} {session : Session}

section Expressions

mutual

theorem contained_inferExpr (hdefaults : ∀ t, session.registry.IsDefault t → t.isGround = true) (e : Expr) :
    Yields old (inferExpr session e) := by
  cases e with
  | lit id l =>
      refine contained_noted (fun K => ?_) _
      refine (contained_lift (InferM.contained_literalType id l)).bind fun t => ?_
      exact contained_leaf (fun _ => .inl) rfl rfl rfl rfl rfl
  | var id name => exact contained_noted (contained_variableUse name) _
  | lambda id params body =>
      refine contained_noted ?_ _
      exact contained_function _ _ (contained_inferExpr hdefaults body)
  | app id func args =>
      refine contained_noted ?_ _
      refine contained_application _ (contained_inferExpr hdefaults func) fun K => ?_
      exact contained_inferExprs hdefaults (fun _ => contained_idle) args
  | letIn id name value body =>
      refine contained_noted ?_ _
      exact contained_letIn hdefaults _ _ (contained_inferExpr hdefaults value) (contained_inferExpr hdefaults body)
  | letRec id bindings body =>
      refine contained_noted ?_ _
      refine contained_letRec hdefaults _ (fun K ts hts => ?_) (contained_inferExpr hdefaults body)
      exact contained_inferValues hdefaults hts bindings
  | cond id c t e =>
      refine contained_noted ?_ _
      exact contained_cond (contained_inferExpr hdefaults c) (contained_inferExpr hdefaults t) (contained_inferExpr hdefaults e)
  | binary id op l r =>
      refine contained_noted ?_ _
      exact contained_binary op (contained_inferExpr hdefaults l) (contained_inferExpr hdefaults r)
  | unary id op e =>
      refine contained_noted ?_ _
      exact contained_unary op (contained_inferExpr hdefaults e)
  | record id fs =>
      refine contained_noted ?_ _
      refine contained_record fun K => ?_
      exact contained_inferFields hdefaults (fun _ _ _ => InferM.contained_duplicateField ..) [] fs
  | field id e name =>
      refine contained_noted ?_ _
      exact contained_field (contained_inferExpr hdefaults e) name
  | update id e fs =>
      refine contained_noted ?_ _
      refine contained_update (contained_inferExpr hdefaults e) fun K after hafter => ?_
      exact contained_inferFields hdefaults (fun _ => hafter) [] fs
  | list id es =>
      refine contained_noted ?_ _
      refine contained_list fun K after hafter => ?_
      exact contained_inferExprs hdefaults hafter es
  | tuple id es =>
      refine contained_noted ?_ _
      refine contained_tuple fun K => ?_
      exact contained_inferExprs hdefaults (fun _ => contained_idle) es
  | caseOf id e arms =>
      refine contained_noted ?_ _
      refine contained_caseOf (contained_inferExpr hdefaults e) fun K scrutinee result hscrutinee hresult => ?_
      exact contained_inferArms hdefaults hscrutinee hresult 0 arms
termination_by structural e

theorem contained_inferExprs {K : Var → Prop} {after : TypedExpr → InferM Unit}
    (hdefaults : ∀ t, session.registry.IsDefault t → t.isGround = true)
    (hafter : ∀ e, InferM.Contained old (fun v => v ∈ e.mentions ∨ K v) (after e) (Silent Unit)) (es : List Expr) :
    Contained old K (inferExprs session after es) fun es v => ∃ e ∈ es, v ∈ e.mentions := by
  cases es with
  | nil => exact contained_pure nofun
  | cons e es =>
      refine (contained_inferExpr hdefaults e K).bind fun e => ?_
      refine (contained_lift (hafter e)).after fun _ => ?_
      refine contained_cons (fun _ => .inl) ?_
      exact contained_inferExprs hdefaults (fun e => (hafter e).knows fun v => .imp_right .inr) es
termination_by structural es

theorem contained_inferFields {K : Var → Prop} {after : List String → String → TypedExpr → InferM Unit}
    (hdefaults : ∀ t, session.registry.IsDefault t → t.isGround = true)
    (hafter : ∀ earlier name e, InferM.Contained old (fun v => v ∈ e.mentions ∨ K v) (after earlier name e) (Silent Unit))
    (earlier : List String) (fs : List (String × Expr)) :
    Contained old K (inferFields session after earlier fs) fun fs v => ∃ f ∈ fs, v ∈ f.2.mentions := by
  cases fs with
  | nil => exact contained_pure nofun
  | cons f fs =>
      refine (contained_within (contained_inferExpr hdefaults f.2 K) _).bind fun e => ?_
      refine (contained_lift (hafter _ f.1 e)).after fun _ => ?_
      have hlater (earlier : List String) (name : String) (e' : TypedExpr) :
          InferM.Contained old (fun v => v ∈ e'.mentions ∨ v ∈ e.mentions ∨ K v) (after earlier name e') (Silent Unit) :=
        (hafter earlier name e').knows fun v => .imp_right .inr
      refine contained_cons (fun _ => .inl) ?_
      exact contained_inferFields hdefaults hlater _ fs
termination_by structural fs

theorem contained_inferValues {K : Var → Prop} {placeholders : List Ty}
    (hdefaults : ∀ t, session.registry.IsDefault t → t.isGround = true) (hts : ∀ t ∈ placeholders, ∀ v ∈ t.vars, K v)
    (bs : List (String × Expr)) :
    Contained old K (inferValues session placeholders bs) fun es v => ∃ e ∈ es, v ∈ e.mentions := by
  cases bs with
  | nil => exact contained_pure nofun
  | cons b bs =>
      refine (contained_inferExpr hdefaults b.2 K).bind fun value => ?_
      have hvalue (v : Var) (hv : v ∈ value.ty.vars) : v ∈ value.mentions ∨ K v := .inl (TypedExpr.mem_mentions_ty hv)
      refine (contained_lift (InferM.contained_equate _ _ (fun v hv => ?_) hvalue)).after fun _ => ?_
      · cases placeholders with
        | nil => exact hvalue v hv
        | cons t ts => exact .inr (hts t List.mem_cons_self v hv)
      refine contained_cons (fun _ => .inl) ?_
      exact contained_inferValues hdefaults (fun t ht v hv => .inr (hts t (List.mem_of_mem_tail ht) v hv)) bs
termination_by structural bs

theorem contained_inferArms {K : Var → Prop} {scrutinee result : Ty}
    (hdefaults : ∀ t, session.registry.IsDefault t → t.isGround = true) (hscrutinee : ∀ v ∈ scrutinee.vars, K v)
    (hresult : ∀ v ∈ result.vars, K v) (index : Nat) (arms : List (Pattern × Expr)) :
    Contained old K (inferArms session scrutinee result index arms) fun arms v =>
      ∃ arm ∈ arms, v ∈ arm.1.mentions ∨ v ∈ arm.2.mentions := by
  cases arms with
  | nil => exact contained_pure nofun
  | cons a arms =>
      refine (contained_arm index hscrutinee hresult a.1 (contained_inferExpr hdefaults a.2)).bind fun arm => ?_
      refine contained_cons (fun _ => .inl) ?_
      exact contained_inferArms hdefaults (fun v hv => .inr (hscrutinee v hv)) (fun v hv => .inr (hresult v hv)) _ arms
termination_by structural arms

end

variable {K : Var → Prop} (hdefaults : ∀ t, session.registry.IsDefault t → t.isGround = true)

include hdefaults

theorem contained_inferBinding (value : Expr) (level : BindingLevel) :
    Contained old K (inferBinding session value level) fun out v => v ∈ out.1.mentions ∨ v ∈ out.2.mentions :=
  contained_binding hdefaults value level (contained_inferExpr hdefaults value)

theorem contained_inferRecGroup (node : NodeId) (bindings : List Binding) (level : BindingLevel) :
    Contained old K (inferRecGroup session node bindings level) fun bs v => ∃ b ∈ bs, v ∈ b.scheme.mentions ∨ v ∈ b.value.mentions :=
  contained_recGroup hdefaults node bindings level fun _ _ hts => contained_inferValues hdefaults hts bindings

theorem contained_inferTopLevel (e : Expr) : Yields old (inferTopLevel session e) :=
  contained_topLevel hdefaults e (contained_inferExpr hdefaults e)

end Expressions

section Runs

variable {env : Env} {c : Context}

theorem fresh_unmentioned {s : Env × Context} (hs : Fresh old s) {v : Var}
    (hv : v ∈ [.type (InferM.freshTypeVar.run s.2).1, .row (InferM.freshRow.run s.2).1]) :
    v ∉ s.1.mentions ∧ v ∉ s.2.subst.mentions ∧ (∀ q ∈ s.2.equations.toList, v ∉ q.goal.vars) ∧
      (∀ k ∈ s.2.classes.toList, v ∉ k.ty.vars) ∧ (v ∈ s.2.resolved.mentions → v ∈ old) := by
  have huncovered : ¬ s.2.unifier.supply.Covers v := by
    rcases List.mem_pair.mp hv with rfl | rfl <;> exact Nat.lt_irrefl _
  obtain ⟨henv, ⟨⟨hsubst, hequations, hclasses⟩, hresolved⟩⟩ := hs
  refine ⟨fun h => huncovered (henv v h), fun h => huncovered (hsubst v h), fun q hq h => huncovered (hequations q hq v h), ?_, ?_⟩
  · exact fun k hk h => huncovered (hclasses k hk v h)
  · exact fun h => (hresolved v h).resolve_right huncovered

/-- The run over an environment that is changed in place ends as the run does and passes through every context that the run passes
through. In every state that it passes through the counters are above all variables, and they never fall. -/
structure StaysFresh {α : Type} (old : List Var) (m : StackM α) (env : Env) (m' : InferM α) (V : α → Var → Prop) (c : Context) :
    Prop where
  run : m.run (env, c) = ((m'.run c).1, env, (m'.run c).2)
  passed : ∀ c' ∈ m'.passed c, ∃ env', (env', c') ∈ m.passed (env, c)
  fresh : ∀ s ∈ m.passed (env, c) ++ [(env, (m'.run c).2)], Fresh old s
  covers : ∀ s ∈ m.passed (env, c) ++ [(env, (m'.run c).2)], ∀ v, c.unifier.supply.Covers v → s.2.unifier.supply.Covers v
  result : ∀ v, V (m'.run c).1 v → (m'.run c).2.unifier.supply.Covers v

theorem Contained.staysFresh {α : Type} {m : StackM α} {m' : InferM α} {V : α → Var → Prop} (hm : Contained old (fun _ => False) m V)
    (hbalances : Balances m env m') (hfresh : Fresh old (env, c)) : StaysFresh old m env m' V c := by
  have hadmits : (guard old).Admits (fun _ => False) (env, c) := ⟨hfresh, fun _ => False.elim⟩
  have hrun := hbalances.run c
  have hleads : ∀ s ∈ m.passed (env, c) ++ [(env, (m'.run c).2)], (guard old).Leads (env, c) s := by
    intro s hs
    rcases List.mem_append.mp hs with hs | hs
    · exact hm.passed _ hadmits s hs
    · have hends := hm.ends _ hadmits
      rw [hrun] at hends
      exact List.mem_singleton.mp hs ▸ hends
  have hresult := hm.answers _ hadmits
  rw [hrun] at hresult
  exact ⟨hrun, hbalances.passed c, fun s hs => (hleads s hs).good, fun s hs => (hleads s hs).keeps, hresult⟩

theorem inference_stays_fresh (session : Session) (old : List Var) (hdefaults : ∀ t, session.registry.IsDefault t → t.isGround = true)
    (henv : ∀ v ∈ env.mentions, c.unifier.supply.Covers v) (hc : c.Below)
    (hold : ∀ v ∈ c.resolved.mentions, v ∈ old ∨ c.unifier.supply.Covers v) :
    (∀ e, StaysFresh old (inferExpr session e) env (RowTyping.inferExpr session env e) (fun e v => v ∈ e.mentions) c) ∧
    (∀ value level, StaysFresh old (inferBinding session value level) env (RowTyping.inferBinding session env value level)
      (fun out v => v ∈ out.1.mentions ∨ v ∈ out.2.mentions) c) ∧
    (∀ node bindings level, StaysFresh old (inferRecGroup session node bindings level) env
      (RowTyping.inferRecGroup session env node bindings level) (fun bs v => ∃ b ∈ bs, v ∈ b.scheme.mentions ∨ v ∈ b.value.mentions) c) ∧
    ∀ e, StaysFresh old (inferTopLevel session e) env (RowTyping.inferTopLevel session env e) (fun e v => v ∈ e.mentions) c := by
  have hfresh : Fresh old (env, c) := ⟨henv, ⟨hc, hold⟩⟩
  refine ⟨fun e => ?_, fun value level => ?_, fun node bindings level => ?_, fun e => ?_⟩
  · exact Contained.staysFresh (contained_inferExpr hdefaults e _) (balances_inferExpr session env e) hfresh
  · exact Contained.staysFresh (contained_inferBinding hdefaults value level) (balances_inferBinding session env value level) hfresh
  · exact Contained.staysFresh (contained_inferRecGroup hdefaults node bindings level)
      (balances_inferRecGroup session env node bindings level) hfresh
  · exact Contained.staysFresh (contained_inferTopLevel hdefaults e _) (balances_inferTopLevel session env e) hfresh

theorem inference_stays_fresh_call :
    let value : Expr := .lambda 3 ["g"] (.app 2 (.var 0 "g") [.var 1 "y"])
    let env := Env.empty.nest [("y", .mono (.ofVar 0))]
    let c := (Context.ofSupply ⟨1, 0⟩).addClass "Eq" (.ofVar 0) 4 .operator
    let session : Session := ⟨.prelude, .default, []⟩
    let out := (RowTyping.inferBinding session env value .nested).run c
    (∀ v ∈ env.mentions, c.unifier.supply.Covers v) ∧ c.Below ∧
      StaysFresh [] (inferBinding session value .nested) env (RowTyping.inferBinding session env value .nested)
        (fun out v => v ∈ out.1.mentions ∨ v ∈ out.2.mentions) c ∧
      out.1.1.quantified = [.type 2, .row 0] ∧ out.2.unifier.supply = ⟨3, 1⟩ := by
  intro value env c session
  have henv : ∀ v ∈ env.mentions, c.unifier.supply.Covers v := by decide
  have hbelow : c.Below := ⟨fun v hv => (nomatch hv), fun q hq => (nomatch hq), by decide⟩
  obtain ⟨-, hbinding, -⟩ := inference_stays_fresh session [] (fun _ => Registry.isGround_of_isDefault_prelude) henv hbelow nofun
  exact ⟨henv, hbelow, hbinding value .nested, by decide +kernel, by decide +kernel⟩

end Runs

end Stacked

end RowTyping
