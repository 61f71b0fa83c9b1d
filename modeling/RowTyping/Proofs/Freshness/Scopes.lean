import RowTyping.Proofs.Freshness.Forms
import RowTyping.Proofs.Inference.Stacked

namespace RowTyping

open Walk

namespace Env

variable {env : Env} {w : Var}

theorem mem_mentions_popScope (h : w ∈ env.popScope.mentions) : w ∈ env.mentions := by
  obtain ⟨scheme, hscheme, hw⟩ := mem_mentions.mp h
  refine mem_mentions.mpr ⟨scheme, ?_, hw⟩
  rcases List.mem_append.mp hscheme with hscheme | hscheme
  · exact List.mem_append_left _ hscheme
  · obtain ⟨inner, hinner, hscheme⟩ := List.mem_flatMap.mp hscheme
    exact List.mem_append_right _ (List.mem_flatMap.mpr ⟨inner, List.mem_of_mem_tail hinner, hscheme⟩)

end Env

namespace Stacked

open InferM (flush applied callee equate freshType joinEffects replaceField knownFields? checkCaptures latentEffects)

structure Fresh (old : List Var) (s : Env × Context) : Prop where
  env : ∀ v ∈ s.1.mentions, s.2.unifier.supply.Covers v
  context : s.2.Fresh old

def guard (old : List Var) : Guard (Env × Context) where
  good := Fresh old
  drawn s := s.2.unifier.supply.Covers

abbrev Contained {α : Type} (old : List Var) (K : Var → Prop) (m : StackM α) (V : α → Var → Prop) : Prop :=
  Walk.Contained (guard old) K m V

variable {α : Type} {old : List Var} {session : Session} {K : Var → Prop} {V : α → Var → Prop}

theorem contained_lift {m : InferM α} (hm : InferM.Contained old K m V) : Contained old K (liftM m) V :=
  hm.zoom (fun _ hs => ⟨hs.good.context, hs.knows⟩)
    (fun _ _ hs hc => ⟨⟨fun v hv => hc.keeps v (hs.env v hv), hc.good⟩, hc.keeps⟩) fun _ _ _ hv => hv

theorem contained_get {f : Context → StackM α} (h : ∀ c, Contained old (fun v => v ∈ c.subst.mentions ∨ K v) (f c) V) :
    Contained old K (liftM (get : InferM Context) >>= f) V := by
  have hread : Contained old K (get >>= fun s => f s.2) V :=
    Walk.contained_get (R := fun s v => v ∈ s.2.subst.mentions) (fun _ hs => hs.context.subst) fun s => h s.2
  exact ⟨hread.passed, hread.ends, hread.answers⟩

theorem contained_environment {f : Env → StackM α} (h : ∀ env, Contained old (fun v => v ∈ env.mentions ∨ K v) (f env) V) :
    Contained old K (environment >>= f) V := by
  have hread : Contained old K (get >>= fun s => f s.1) V :=
    Walk.contained_get (R := fun s v => v ∈ s.1.mentions) (fun _ hs => hs.env) fun s => h s.1
  exact ⟨hread.passed, hread.ends, hread.answers⟩

theorem contained_change {g : Env → Env} (h : ∀ env v, v ∈ (g env).mentions → K v ∨ v ∈ env.mentions) :
    Contained old K (change g) (Silent Unit) := by
  refine contained_modify fun s hs => ⟨⟨fun v hv => ?_, hs.good.context⟩, fun _ hv => hv⟩
  rcases h s.1 v hv with hv | hv
  · exact hs.knows v hv
  · exact hs.good.env v hv

theorem contained_pushScope : Contained old K pushScope (Silent Unit) :=
  contained_change fun env _ hv => .inr (env.mentions_pushScope ▸ hv)

theorem contained_popScope : Contained old K popScope (Silent Unit) :=
  contained_change fun _ _ hv => .inr (Env.mem_mentions_popScope hv)

theorem contained_define (name : String) {scheme : Scheme} (h : ∀ v ∈ scheme.mentions, K v) :
    Contained old K (define name scheme) (Silent Unit) :=
  contained_change fun _ _ hv => (Env.mem_mentions_bind hv).imp_left (h _)

theorem contained_defineAll {bindings : List (String × Scheme)} (h : ∀ b ∈ bindings, ∀ v ∈ b.2.mentions, K v) :
    Contained old K (defineAll bindings) (Silent Unit) :=
  contained_forM fun b hb => contained_define b.1 (h b hb)

theorem contained_declare (names : List String) : Contained old K (declare names) fun ts v => ∃ t ∈ ts, v ∈ t.vars := by
  refine contained_mapM fun name _ => ?_
  refine (contained_lift InferM.contained_freshType).bind fun t => ?_
  refine (contained_define name fun v hv => .inl (Scheme.mem_mentions_mono.mp hv)).after fun _ => ?_
  exact contained_pure fun _ => .inl

theorem contained_within {m : StackM α} (hm : Contained old K m V) (label : String) : Contained old K (within label m) V := by
  refine (contained_lift (InferM.contained_aside (g := Context.enter label) fun _ => ⟨rfl, rfl, rfl, rfl⟩)).after fun _ => ?_
  refine hm.bind fun a => ?_
  refine (contained_lift (InferM.contained_aside (g := Context.leave) fun _ => ⟨rfl, rfl, rfl, rfl⟩)).after fun _ => ?_
  exact contained_pure fun _ => .inl

abbrev Yields (old : List Var) (m : StackM TypedExpr) : Prop :=
  ∀ K : Var → Prop, Contained old K m fun e v => v ∈ e.mentions

variable {id : NodeId} {m m₁ m₂ m₃ : StackM TypedExpr}

theorem contained_pushClassScope : Contained old K (liftM (modify Context.pushClassScope : InferM Unit)) (Silent Unit) :=
  contained_lift InferM.contained_pushClassScope

theorem contained_noted (h : Yields old m) (e : Expr) : Yields old (noted e m) := by
  intro K
  refine (h K).bind fun typed => ?_
  refine contained_get fun c => ?_
  refine contained_ite (fun _ => ?_) fun _ => contained_pure fun _ hv => .inr (.inl hv)
  refine (contained_lift (InferM.contained_note ..)).after fun _ => ?_
  exact contained_pure fun _ hv => .inr (.inl hv)

theorem contained_variableUse (name : String) : Yields old (variableUse id name) := by
  intro K
  refine contained_environment fun env => ?_
  exact contained_lift (InferM.contained_variableUse (fun _ => .inl) name)

section Boundaries

variable (hdefaults : ∀ t, session.registry.IsDefault t → t.isGround = true)

include hdefaults

theorem contained_binding (value : Expr) (level : BindingLevel) (h : Yields old m) :
    Contained old K (binding session value level m) fun out v => v ∈ out.1.mentions ∨ v ∈ out.2.mentions := by
  rw [binding]
  refine Walk.Contained.after contained_pushClassScope fun _ => ?_
  refine (h K).bind fun e => ?_
  refine contained_environment fun env => ?_
  refine Walk.Contained.bind (contained_lift (InferM.contained_closeBoundary hdefaults (fun t ht v hv => ?_) ..)) fun schemes => ?_
  · rw [List.mem_singleton.mp ht] at hv
    exact .inr (.inl (TypedExpr.mem_mentions_ty hv))
  refine contained_get fun c => ?_
  have hvalue (v : Var) (hv : v ∈ (c.subst.applyExpr e).mentions) :
      v ∈ c.subst.mentions ∨ (∃ scheme ∈ schemes, v ∈ scheme.mentions) ∨ v ∈ env.mentions ∨ v ∈ e.mentions ∨ K v := by
    rcases TypedExpr.mem_mentions_applyExpr hv with hv | hv
    · exact .inr (.inr (.inr (.inl hv)))
    · exact .inl hv
  refine contained_pure fun v hv => ?_
  rcases hv with hv | hv
  · cases schemes with
    | nil => exact hvalue v (TypedExpr.mem_mentions_ty (Scheme.mem_mentions_mono.mp hv))
    | cons scheme schemes => exact .inr (.inl ⟨scheme, List.mem_cons_self, hv⟩)
  · exact hvalue v hv

theorem contained_topLevel (e : Expr) (h : Yields old m) : Yields old (topLevel session e m) := by
  intro K
  rw [topLevel]
  refine Walk.Contained.after contained_pushClassScope fun _ => ?_
  refine (h K).bind fun e => ?_
  refine contained_environment fun env => ?_
  refine Walk.Contained.bind (contained_lift (InferM.contained_closeBoundary hdefaults (fun t ht v hv => ?_) ..)) fun schemes => ?_
  · rw [List.mem_singleton.mp ht] at hv
    exact .inr (.inl (TypedExpr.mem_mentions_ty hv))
  refine contained_get fun c => ?_
  refine contained_pure fun v hv => ?_
  rcases TypedExpr.mem_mentions_applyExpr hv with hv | hv
  · exact .inr (.inr (.inr (.inl hv)))
  · exact .inl hv

theorem contained_recGroup (node : NodeId) (bindings : List Binding) (level : BindingLevel)
    {infer : List Ty → StackM (List TypedExpr)}
    (h : ∀ (K : Var → Prop) (ts : List Ty), (∀ t ∈ ts, ∀ v ∈ t.vars, K v) → Contained old K (infer ts) fun es v => ∃ e ∈ es, v ∈ e.mentions) :
    Contained old K (recGroup session node bindings level infer) fun bs v =>
      ∃ b ∈ bs, v ∈ b.scheme.mentions ∨ v ∈ b.value.mentions := by
  rw [recGroup]
  refine Walk.Contained.after contained_pushClassScope fun _ => ?_
  refine contained_pushScope.after fun _ => ?_
  refine (contained_declare _).bind fun placeholders => ?_
  refine (h _ placeholders fun t ht v hv => .inl ⟨t, ht, hv⟩).bind fun values => ?_
  refine contained_popScope.after fun _ => ?_
  refine contained_environment fun env => ?_
  refine Walk.Contained.bind (contained_lift (InferM.contained_closeBoundary hdefaults (fun t ht v hv => ?_) ..)) fun schemes => ?_
  · exact .inr (.inr (.inl ⟨t, ht, hv⟩))
  refine contained_get fun c => ?_
  apply contained_pure
  rintro v ⟨_, hb, hv⟩
  obtain ⟨⟨name, value, scheme⟩, hmem, rfl⟩ := List.mem_map.mp hb
  obtain ⟨hvalue, hscheme⟩ := List.of_mem_zip (List.of_mem_zip hmem).2
  rcases hv with hv | hv
  · exact .inr (.inl ⟨scheme, hscheme, hv⟩)
  · rcases TypedExpr.mem_mentions_applyExpr hv with hv | hv
    · exact .inr (.inr (.inr (.inl ⟨value, hvalue, hv⟩)))
    · exact .inl hv

theorem contained_letIn (name : String) (value : Expr) (hvalue : Yields old m₁) (hbody : Yields old m₂) :
    Yields old (letIn session id name value m₁ m₂) := by
  intro K
  refine (contained_within (contained_binding hdefaults value .nested hvalue) _).bind fun ⟨scheme, value⟩ => ?_
  refine contained_pushScope.after fun _ => ?_
  refine (contained_defineAll (List.forall_mem_singleton.mpr fun v hv => .inl (.inl hv))).after fun _ => ?_
  refine (hbody _).bind fun body => ?_
  refine contained_popScope.after fun _ => ?_
  refine (contained_lift (InferM.contained_joinEffects id ?_)).bind fun effects => ?_
  · refine List.forall_mem_cons.mpr ⟨fun v hv => ?_, List.forall_mem_singleton.mpr fun v hv => ?_⟩
    · exact .inr (.inl (.inr (TypedExpr.mem_mentions_effects hv)))
    · exact .inl (TypedExpr.mem_mentions_effects hv)
  refine contained_node (fun v hv => ?_) (fun v => .inl) ?_ (List.forall_mem_nil _) (List.forall_mem_nil _) ?_
  · exact .inr (.inl (TypedExpr.mem_mentions_ty hv))
  · refine List.forall_mem_cons.mpr ⟨fun v hv => ?_, List.forall_mem_singleton.mpr fun v hv => ?_⟩
    · exact .inr (.inr (.inl (.inr hv)))
    · exact .inr (.inl hv)
  · exact List.forall_mem_singleton.mpr fun v hv => .inr (.inr (.inl (.inl hv)))

theorem contained_letRec (bindings : List Binding) {inferValues : List Ty → StackM (List TypedExpr)}
    (hvalues : ∀ (K : Var → Prop) (ts : List Ty), (∀ t ∈ ts, ∀ v ∈ t.vars, K v) →
      Contained old K (inferValues ts) fun es v => ∃ e ∈ es, v ∈ e.mentions) (hbody : Yields old m) :
    Yields old (letRec session id bindings inferValues m) := by
  intro K
  refine (contained_within (contained_recGroup hdefaults id bindings .nested hvalues) _).bind fun bs => ?_
  refine contained_pushScope.after fun _ => ?_
  refine (contained_defineAll (List.forall_mem_map.mpr fun b hb v hv => .inl ⟨b, hb, .inl hv⟩)).after fun _ => ?_
  refine (hbody _).bind fun body => ?_
  refine contained_popScope.after fun _ => ?_
  refine (contained_lift (InferM.contained_joinEffects id fun e he v hv => ?_)).bind fun effects => ?_
  · rcases List.mem_append.mp he with he | he
    · obtain ⟨b, hb, rfl⟩ := List.mem_map.mp he
      exact .inr (.inl ⟨b, hb, .inr (TypedExpr.mem_mentions_effects hv)⟩)
    · rw [List.mem_singleton.mp he] at hv
      exact .inl (TypedExpr.mem_mentions_effects hv)
  refine contained_node (fun v hv => ?_) (fun v => .inl) (fun child hchild v hv => ?_) (List.forall_mem_nil _) (List.forall_mem_nil _) ?_
  · exact .inr (.inl (TypedExpr.mem_mentions_ty hv))
  · rcases List.mem_append.mp hchild with hchild | hchild
    · obtain ⟨b, hb, rfl⟩ := List.mem_map.mp hchild
      exact .inr (.inr (.inl ⟨b, hb, .inr hv⟩))
    · rw [List.mem_singleton.mp hchild] at hv
      exact .inr (.inl hv)
  · exact fun b hb v hv => .inr (.inr (.inl ⟨b, hb, .inl hv⟩))

end Boundaries

section Calls

theorem contained_function (lambda : Expr) (params : List String) (hbody : Yields old m) :
    Yields old (function session lambda params m) := by
  intro K
  rw [function]
  refine Walk.Contained.bind (contained_within (V := fun (out : List (String × Ty) × TypedExpr × Effects) v =>
    (∃ p ∈ out.1, v ∈ p.2.vars) ∨ v ∈ out.2.1.mentions ∨ v ∈ out.2.2.toRow.vars) ?_ _) ?_
  · refine contained_environment fun env => ?_
    refine (contained_lift (InferM.contained_checkCaptures lambda)).after fun _ => ?_
    refine contained_pushScope.after fun _ => ?_
    refine (contained_declare params).bind fun types => ?_
    refine (hbody _).bind fun body => ?_
    refine contained_popScope.after fun _ => ?_
    refine (contained_lift (InferM.contained_latentEffects lambda.id fun v hv => .inl (TypedExpr.mem_mentions_effects hv))).bind
      fun latent => ?_
    refine contained_pure fun v => ?_
    rintro (⟨p, hp, hv⟩ | hv | hv)
    · exact .inr (.inr (.inl ⟨p.2, (List.of_mem_zip hp).2, hv⟩))
    · exact .inr (.inl hv)
    · exact .inl hv
  rintro ⟨params, body, latent⟩
  have hparam (t : Ty) (ht : t ∈ params.map Prod.snd) (v : Var) (hv : v ∈ t.vars) : ∃ p ∈ params, v ∈ p.2.vars := by
    obtain ⟨p, hp, rfl⟩ := List.mem_map.mp ht
    exact ⟨p, hp, hv⟩
  refine contained_node (fun v hv => .inl ?_) (fun v hv => absurd hv Row.not_mem_vars_closedEffects)
    (List.forall_mem_singleton.mpr fun v hv => .inl (.inr (.inl hv))) (fun t ht v hv => .inl (.inl (hparam t ht v hv)))
    (List.forall_mem_nil _) (List.forall_mem_nil _)
  rcases Ty.mem_vars_latent.mp hv with ⟨t, ht, hv⟩ | hv | hv
  · exact .inl (hparam t ht v hv)
  · exact .inr (.inr hv)
  · exact .inr (.inl (TypedExpr.mem_mentions_ty hv))

theorem contained_application (func : Expr) {inferArgs : StackM (List TypedExpr)} (hfunc : Yields old m)
    (hargs : ∀ K : Var → Prop, Contained old K inferArgs fun es v => ∃ e ∈ es, v ∈ e.mentions) :
    Yields old (application id func m inferArgs) := by
  intro K
  rw [application]
  refine Walk.Contained.bind (contained_within (V := fun (out : TypedExpr × List TypedExpr × Ty × Effects) v =>
    v ∈ out.1.mentions ∨ (∃ e ∈ out.2.1, v ∈ e.mentions) ∨ v ∈ out.2.2.1.vars ∨ v ∈ out.2.2.2.toRow.vars) ?_ _) ?_
  · refine (hfunc K).bind fun func => ?_
    refine (hargs _).bind fun args => ?_
    refine Walk.Contained.after (contained_lift InferM.contained_flush) fun _ => ?_
    refine (contained_lift (InferM.contained_applied fun v hv => .inr (.inl (TypedExpr.mem_mentions_ty hv)))).bind fun t => ?_
    refine (contained_lift (InferM.contained_callee func.id (fun _ => .inl) fun e he v hv => .inr (.inl ⟨e, he, hv⟩))).bind fun x => ?_
    obtain ⟨result, latent⟩ := x
    refine Walk.Contained.after (contained_lift InferM.contained_flush) fun _ => ?_
    refine contained_pure fun v => ?_
    rintro (hv | hv | hv)
    · exact .inr (.inr (.inr (.inl hv)))
    · exact .inr (.inr (.inl hv))
    · exact .inl hv
  rintro ⟨func, args, result, latent⟩
  refine (contained_lift (InferM.contained_joinEffects id fun e he v hv => ?_)).bind fun effects => ?_
  · rcases List.mem_append.mp he with he | he
    · rcases List.mem_cons.mp he with rfl | he
      · exact .inl (.inl (TypedExpr.mem_mentions_effects hv))
      · obtain ⟨arg, harg, rfl⟩ := List.mem_map.mp he
        exact .inl (.inr (.inl ⟨arg, harg, TypedExpr.mem_mentions_effects hv⟩))
    · rw [List.mem_singleton.mp he] at hv
      exact .inl (.inr (.inr (.inr hv)))
  refine contained_plain (fun v hv => .inr (.inl (.inr (.inr (.inl hv))))) (fun v => .inl) ?_ rfl rfl rfl
  refine List.forall_mem_cons.mpr ⟨fun v hv => ?_, fun e he v hv => ?_⟩
  · exact .inr (.inl (.inl hv))
  · exact .inr (.inl (.inr (.inl ⟨e, he, hv⟩)))

end Calls

section Operators

theorem contained_cond (h₁ : Yields old m₁) (h₂ : Yields old m₂) (h₃ : Yields old m₃) : Yields old (cond id m₁ m₂ m₃) := by
  intro K
  rw [cond]
  refine Walk.Contained.bind (contained_within (V := fun (out : TypedExpr × TypedExpr × TypedExpr) v =>
    v ∈ out.1.mentions ∨ v ∈ out.2.1.mentions ∨ v ∈ out.2.2.mentions) ?_ _) ?_
  · refine (h₁ K).bind fun c => ?_
    refine (contained_lift (InferM.contained_equate _ _ nofun fun v hv => .inl (TypedExpr.mem_mentions_ty hv))).after fun _ => ?_
    refine (h₂ _).bind fun t => ?_
    refine (h₃ _).bind fun e => ?_
    refine (contained_lift (InferM.contained_equate _ _ (fun v hv => ?_) fun v hv => ?_)).after fun _ => ?_
    · exact .inr (.inl (TypedExpr.mem_mentions_ty hv))
    · exact .inl (TypedExpr.mem_mentions_ty hv)
    refine contained_pure fun v => ?_
    rintro (hv | hv | hv)
    · exact .inr (.inr (.inl hv))
    · exact .inr (.inl hv)
    · exact .inl hv
  rintro ⟨c, t, e⟩
  have hchildren : ∀ child ∈ [c, t, e], ∀ v ∈ child.mentions, (v ∈ c.mentions ∨ v ∈ t.mentions ∨ v ∈ e.mentions) ∨ K v := by
    simp only [List.forall_mem_cons]
    exact ⟨fun v hv => .inl (.inl hv), fun v hv => .inl (.inr (.inl hv)), fun v hv => .inl (.inr (.inr hv)), List.forall_mem_nil _⟩
  refine (contained_lift (InferM.contained_joinEffects id ?_)).bind fun effects => ?_
  · exact List.forall_mem_map.mpr fun child hchild v hv => hchildren child hchild v (TypedExpr.mem_mentions_effects hv)
  refine contained_plain (fun v hv => ?_) (fun v => .inl) (fun child hchild v hv => .inr (hchildren child hchild v hv)) rfl rfl rfl
  exact .inr (.inl (.inr (.inl (TypedExpr.mem_mentions_ty hv))))

theorem contained_binary (op : BinaryOp) (h₁ : Yields old m₁) (h₂ : Yields old m₂) : Yields old (binary id op m₁ m₂) := by
  intro K
  refine (h₁ K).bind fun left => ?_
  refine (h₂ _).bind fun right => ?_
  exact contained_lift (InferM.contained_binary op (fun v hv => .inr (.inl hv)) fun v => .inl)

theorem contained_unary (op : UnaryOp) (h : Yields old m) : Yields old (unary id op m) := by
  intro K
  refine (h K).bind fun operand => ?_
  exact contained_lift (InferM.contained_unary op fun v => .inl)

end Operators

section Collections

theorem contained_record {inferFields : StackM (List (String × TypedExpr))}
    (h : ∀ K : Var → Prop, Contained old K inferFields fun fs v => ∃ f ∈ fs, v ∈ f.2.mentions) :
    Yields old (record session id inferFields) := by
  intro K
  refine (h K).bind fun fields => ?_
  exact contained_lift (InferM.contained_record fun f hf v hv => .inl ⟨f, hf, hv⟩)

theorem contained_field (h : Yields old m) (name : String) : Yields old (field id m name) := by
  intro K
  refine (h K).bind fun base => ?_
  exact contained_lift (InferM.contained_field (fun v => .inl) name)

theorem contained_update (h : Yields old m) {inferFields : (String → TypedExpr → InferM Unit) → StackM (List (String × TypedExpr))}
    (hfields : ∀ (K : Var → Prop) (after : String → TypedExpr → InferM Unit),
      (∀ name e, InferM.Contained old (fun v => v ∈ e.mentions ∨ K v) (after name e) (Silent Unit)) →
        Contained old K (inferFields after) fun fs v => ∃ f ∈ fs, v ∈ f.2.mentions) :
    Yields old (update id m inferFields) := by
  intro K
  refine (h K).bind fun base => ?_
  refine Walk.Contained.after (contained_lift InferM.contained_flush) fun _ => ?_
  refine (contained_lift (InferM.contained_applied fun v hv => .inl (TypedExpr.mem_mentions_ty hv))).bind fun t => ?_
  have hrest : Contained old (fun v => v ∈ t.vars ∨ v ∈ base.mentions ∨ K v) (do
      let fields ← inferFields (replaceField t (knownFields? t))
      let effects ← joinEffects id (base.effects :: fields.map fun f => f.2.effects)
      return TypedExpr.update ⟨id, t, effects⟩ base fields) fun e v => v ∈ e.mentions := by
    refine (hfields _ _ fun name value => ?_).bind fun fields => ?_
    · exact InferM.contained_replaceField (fun v hv => .inr (.inl hv)) name fun _ => .inl
    refine (contained_lift (InferM.contained_joinEffects id ?_)).bind fun effects => ?_
    · refine List.forall_mem_cons.mpr ⟨fun v hv => ?_, List.forall_mem_map.mpr fun f hf v hv => ?_⟩
      · exact .inr (.inr (.inl (TypedExpr.mem_mentions_effects hv)))
      · exact .inl ⟨f, hf, TypedExpr.mem_mentions_effects hv⟩
    refine contained_plain (fun v hv => .inr (.inr (.inl hv))) (fun _ => .inl) ?_ rfl rfl rfl
    refine List.forall_mem_cons.mpr ⟨fun v hv => ?_, List.forall_mem_map.mpr fun f hf v hv => ?_⟩
    · exact .inr (.inr (.inr (.inl hv)))
    · exact .inr (.inl ⟨f, hf, hv⟩)
  refine contained_ite (fun _ => ?_) fun _ => hrest
  exact (contained_lift (InferM.contained_report ..)).after fun _ => hrest

theorem contained_list {inferElems : (TypedExpr → InferM Unit) → StackM (List TypedExpr)}
    (h : ∀ (K : Var → Prop) (after : TypedExpr → InferM Unit),
      (∀ e, InferM.Contained old (fun v => v ∈ e.mentions ∨ K v) (after e) (Silent Unit)) →
        Contained old K (inferElems after) fun es v => ∃ e ∈ es, v ∈ e.mentions) : Yields old (list id inferElems) := by
  intro K
  refine (contained_lift InferM.contained_freshType).bind fun elem => ?_
  refine (h _ _ fun e => ?_).bind fun elems => ?_
  · exact InferM.contained_equate _ _ (fun v hv => .inr (.inl hv)) fun v hv => .inl (TypedExpr.mem_mentions_ty hv)
  refine (contained_lift (InferM.contained_joinEffects id (List.forall_mem_map.mpr fun e he v hv => ?_))).bind fun effects => ?_
  · exact .inl ⟨e, he, TypedExpr.mem_mentions_effects hv⟩
  exact contained_plain (fun v hv => .inr (.inr (.inl hv))) (fun _ => .inl) (fun e he v hv => .inr (.inl ⟨e, he, hv⟩)) rfl rfl rfl

theorem contained_tuple {inferElems : StackM (List TypedExpr)}
    (h : ∀ K : Var → Prop, Contained old K inferElems fun es v => ∃ e ∈ es, v ∈ e.mentions) : Yields old (tuple id inferElems) := by
  intro K
  refine (h K).bind fun elems => ?_
  exact contained_lift (InferM.contained_tuple fun e he v hv => .inl ⟨e, he, hv⟩)

end Collections

section Matches

theorem contained_arm (index : Nat) {scrutinee result : Ty} (hscrutinee : ∀ v ∈ scrutinee.vars, K v) (hresult : ∀ v ∈ result.vars, K v)
    (p : Pattern) (hbody : Yields old m) :
    Contained old K (arm session index scrutinee result p m) fun arm v => v ∈ arm.1.mentions ∨ v ∈ arm.2.mentions := by
  refine contained_within ?_ _
  refine (contained_lift (InferM.contained_inferPattern (List.forall_mem_nil _) p)).bind fun ⟨p, bound⟩ => ?_
  refine (contained_lift (InferM.contained_equate _ _ (fun v hv => .inr (hscrutinee v hv)) fun v hv => ?_)).after fun _ => ?_
  · exact .inl (.inl (TypedPattern.mem_mentions_ty hv))
  refine contained_pushScope.after fun _ => ?_
  refine (contained_defineAll (List.forall_mem_map.mpr fun b hb v hv => ?_)).after fun _ => ?_
  · exact .inl (.inr ⟨b, hb, Scheme.mem_mentions_mono.mp hv⟩)
  refine (hbody _).bind fun body => ?_
  refine contained_popScope.after fun _ => ?_
  refine (contained_lift (InferM.contained_equate _ _ (fun v hv => .inr (.inr (hresult v hv))) fun v hv => ?_)).after fun _ => ?_
  · exact .inl (TypedExpr.mem_mentions_ty hv)
  refine contained_pure fun v hv => ?_
  rcases hv with hv | hv
  · exact .inr (.inl (.inl hv))
  · exact .inl hv

theorem contained_caseOf (h : Yields old m) {inferArms : Ty → Ty → StackM (List (TypedPattern × TypedExpr))}
    (harms : ∀ (K : Var → Prop) (scrutinee result : Ty), (∀ v ∈ scrutinee.vars, K v) → (∀ v ∈ result.vars, K v) →
      Contained old K (inferArms scrutinee result) fun arms v => ∃ arm ∈ arms, v ∈ arm.1.mentions ∨ v ∈ arm.2.mentions) :
    Yields old (caseOf id m inferArms) := by
  intro K
  have hparts : Contained old K (do
      let scrutinee ← m
      let result ← freshType
      return (scrutinee, result, ← inferArms scrutinee.ty result)) fun out v =>
        v ∈ out.1.mentions ∨ v ∈ out.2.1.vars ∨ ∃ arm ∈ out.2.2, v ∈ arm.1.mentions ∨ v ∈ arm.2.mentions := by
    refine (h K).bind fun scrutinee => ?_
    refine (contained_lift InferM.contained_freshType).bind fun result => ?_
    refine (harms _ _ _ (fun v hv => .inr (.inl (TypedExpr.mem_mentions_ty hv))) fun _ => .inl).bind fun arms => ?_
    refine contained_pure fun v => ?_
    rintro (hv | hv | hv)
    · exact .inr (.inr (.inl hv))
    · exact .inr (.inl hv)
    · exact .inl hv
  refine (contained_within hparts _).bind fun ⟨scrutinee, result, arms⟩ => ?_
  refine (contained_lift (InferM.contained_joinEffects id ?_)).bind fun effects => ?_
  · refine List.forall_mem_cons.mpr ⟨fun v hv => ?_, List.forall_mem_map.mpr fun arm harm v hv => ?_⟩
    · exact .inl (.inl (TypedExpr.mem_mentions_effects hv))
    · exact .inl (.inr (.inr ⟨arm, harm, .inr (TypedExpr.mem_mentions_effects hv)⟩))
  refine contained_node (fun v hv => ?_) (fun _ => .inl) ?_ ?_ ?_ (List.forall_mem_nil _)
  · exact .inr (.inl (.inr (.inl hv)))
  · refine List.forall_mem_cons.mpr ⟨fun v hv => ?_, List.forall_mem_map.mpr fun arm harm v hv => ?_⟩
    · exact .inr (.inl (.inl hv))
    · exact .inr (.inl (.inr (.inr ⟨arm, harm, .inr hv⟩)))
  · refine List.forall_mem_map.mpr fun arm harm v hv => ?_
    exact .inr (.inl (.inr (.inr ⟨arm, harm, .inl (TypedPattern.mem_mentions_ty hv)⟩)))
  · intro p hp v hv
    obtain ⟨arm, harm, hp⟩ := List.mem_flatMap.mp hp
    exact .inr (.inl (.inr (.inr ⟨arm, harm, .inl (TypedPattern.mem_mentions.mpr ⟨p, hp, hv⟩)⟩)))

end Matches

end Stacked

end RowTyping
