import RowTyping.Infer.Expr
import RowTyping.Proofs.Freshness.Boundary

namespace RowTyping

open Walk

theorem Ty.mem_vars_of_arguments {t u : Ty} {w : Var} (h : u ∈ t.arguments) (hw : w ∈ u.vars) : w ∈ t.vars := by
  cases t with
  | app => exact mem_vars_app.mpr (.inr ⟨u, h, hw⟩)
  | tuple => exact mem_vars_tuple.mpr ⟨u, h, hw⟩
  | list => exact List.mem_singleton.mp h ▸ hw
  | _ => cases h

section Nodes

variable {σ : Type} {G : Guard σ} {K : Var → Prop} {e : TypedExpr} (hty : ∀ v ∈ e.ty.vars, K v)
  (heffects : ∀ v ∈ e.effects.toRow.vars, K v) (hchildren : ∀ child ∈ e.children, ∀ v ∈ child.mentions, K v)

include hty heffects hchildren

theorem contained_node (hannotations : ∀ t ∈ e.annotations, ∀ v ∈ t.vars, K v) (hpatterns : ∀ p ∈ e.patterns, ∀ v ∈ p.ty.vars, K v)
    (hgroup : ∀ b ∈ e.group, ∀ v ∈ b.scheme.mentions, K v) : Contained G K (pure e) fun e v => v ∈ e.mentions := by
  refine contained_pure fun v hv => ?_
  rcases TypedExpr.mem_mentions.mp hv with hv | ⟨child, hchild, hv⟩
  · rcases TypedExpr.mem_own.mp hv with hv | hv | ⟨t, ht, hv⟩ | ⟨p, hp, hv⟩ | ⟨b, hb, hv⟩
    · exact hty v hv
    · exact heffects v hv
    · exact hannotations t ht v hv
    · exact hpatterns p hp v hv
    · exact hgroup b hb v hv
  · exact hchildren child hchild v hv

theorem contained_plain (hannotations : e.annotations = []) (hpatterns : e.patterns = []) (hgroup : e.group = []) :
    Contained G K (pure e) fun e v => v ∈ e.mentions :=
  contained_node hty heffects hchildren (hannotations ▸ List.forall_mem_nil _) (hpatterns ▸ List.forall_mem_nil _)
    (hgroup ▸ List.forall_mem_nil _)

end Nodes

theorem contained_leaf {σ : Type} {G : Guard σ} {K : Var → Prop} {e : TypedExpr} (hty : ∀ v ∈ e.ty.vars, K v)
    (heffects : e.effects = none) (hchildren : e.children = []) (hannotations : e.annotations = []) (hpatterns : e.patterns = [])
    (hgroup : e.group = []) : Contained G K (pure e) fun e v => v ∈ e.mentions := by
  refine contained_plain hty ?_ (hchildren ▸ List.forall_mem_nil _) hannotations hpatterns hgroup
  rw [heffects]
  exact fun v hv => absurd hv Row.not_mem_vars_closedEffects

namespace InferM

variable {old : List Var} {session : Session} {env : Env} {K : Var → Prop} {id : NodeId}

theorem contained_variableUse (henv : ∀ v ∈ env.mentions, K v) (name : String) :
    Contained old K (variableUse env id name) fun e v => v ∈ e.mentions := by
  rw [variableUse]
  split
  next scheme hlookup =>
    refine (contained_instantiate (fun v hv => henv v (Env.mem_mentions_of_lookup hlookup hv)) id).bind fun t => ?_
    exact contained_leaf (fun _ => .inl) rfl rfl rfl rfl rfl
  next =>
    refine (contained_report ..).after fun _ => ?_
    refine contained_freshType.bind fun t => ?_
    exact contained_leaf (fun _ => .inl) rfl rfl rfl rfl rfl

section Applications

theorem contained_passArguments (index : Nat) {params : List Ty} {args : List TypedExpr} (hparams : ∀ t ∈ params, ∀ v ∈ t.vars, K v)
    (hargs : ∀ e ∈ args, ∀ v ∈ e.mentions, K v) : Contained old K (passArguments index params args) (Silent Unit) := by
  induction params generalizing index args K with
  | nil => exact contained_idle
  | cons param params ih =>
      cases args with
      | nil => exact contained_idle
      | cons arg args =>
          rw [List.forall_mem_cons] at hparams hargs
          refine (contained_applied fun v hv => hargs.1 v (TypedExpr.mem_mentions_ty hv)).bind fun t => ?_
          refine (contained_openLatentEffects fun _ => .inl).bind fun actual => ?_
          refine (contained_equate _ _ (fun v hv => .inr (.inr (hparams.1 v hv))) fun _ => .inl).after fun _ => ?_
          refine ih _ ?_ ?_
          · exact fun t ht v hv => .inr (.inr (hparams.2 t ht v hv))
          · exact fun e he v hv => .inr (.inr (hargs.2 e he v hv))

theorem contained_callee (funcId : NodeId) {args : List TypedExpr} {func : Ty} (hfunc : ∀ v ∈ func.vars, K v)
    (hargs : ∀ e ∈ args, ∀ v ∈ e.mentions, K v) :
    Contained old K (callee id funcId args func) fun out v => v ∈ out.1.vars ∨ v ∈ out.2.toRow.vars := by
  have hother : Contained old K (do
      let result ← freshType
      let latent := Effects.opened [] (← freshRow)
      equate funcId .application (.fn (args.map TypedExpr.ty) latent result) func
      return (result, latent)) fun out v => v ∈ out.1.vars ∨ v ∈ out.2.toRow.vars := by
    refine contained_freshType.bind fun result => ?_
    refine contained_freshRow.bind fun tail => ?_
    refine (contained_equate _ _ (fun v hv => ?_) fun v hv => .inr (.inr (hfunc v hv))).after fun _ => ?_
    · rcases Ty.mem_vars_latent.mp hv with ⟨_, ht, hv⟩ | hv | hv
      · obtain ⟨e, he, rfl⟩ := List.mem_map.mp ht
        exact .inr (.inr (hargs e he v (TypedExpr.mem_mentions_ty hv)))
      · exact .inl (Row.mem_vars_openEffects hv)
      · exact .inr (.inl hv)
    · refine contained_pure fun v hv => ?_
      rcases hv with hv | hv
      · exact .inr (.inl hv)
      · exact .inl (Row.mem_vars_openEffects hv)
  cases func with
  | fn params latent result =>
      refine contained_ite (fun _ => ?_) fun _ => ?_
      · refine (contained_passArguments 0 (fun t ht v hv => ?_) hargs).after fun _ => ?_
        · exact hfunc v (Ty.mem_vars_latent.mpr (.inl ⟨t, ht, hv⟩))
        · exact contained_pure fun v hv => hfunc v (Ty.mem_vars_latent.mpr (.inr hv.symm))
      · refine (contained_report ..).after fun _ => ?_
        refine contained_freshType.bind fun t => ?_
        exact contained_pure fun v hv => .inl (hv.resolve_right Row.not_mem_vars_closedEffects)
  | _ => exact hother

end Applications

section Operators

theorem contained_numericClass (t : Ty) : Contained old K (numericClass t) (Silent String) := by
  refine contained_get fun _ => ?_
  exact contained_pure fun _ => False.elim

theorem contained_concatenation {left right : Ty} (hleft : ∀ v ∈ left.vars, K v) (hright : ∀ v ∈ right.vars, K v) :
    Contained old K (concatenation id left right) fun out v => v ∈ out.2.vars := by
  refine contained_flush.after fun _ => ?_
  refine (contained_applied hleft).bind fun l => ?_
  refine (contained_applied fun v hv => .inr (hright v hv)).bind fun r => ?_
  have hequate (x : ConcatKind × Ty) {K : Var → Prop} (hl : ∀ v ∈ l.vars, K v) (hr : ∀ v ∈ r.vars, K v) (hx : ∀ v ∈ x.2.vars, K v) :
      Contained old K (do
        equate id (.binaryOp .concat) x.2 l
        equate id (.binaryOp .concat) x.2 r
        return (x.1, x.2)) fun out v => v ∈ out.2.vars := by
    refine (contained_equate _ _ hx hl).after fun _ => ?_
    refine (contained_equate _ _ hx hr).after fun _ => ?_
    exact contained_pure hx
  have hleft (v : Var) (hv : v ∈ l.vars) : v ∈ r.vars ∨ v ∈ l.vars ∨ K v := .inr (.inl hv)
  have hright (v : Var) (hv : v ∈ r.vars) : v ∈ r.vars ∨ v ∈ l.vars ∨ K v := .inl hv
  have hknown : ∀ v ∈ (if l.isVar then r else l).vars, v ∈ r.vars ∨ v ∈ l.vars ∨ K v := by
    split
    · exact hright
    · exact hleft
  have hfresh : Contained old (fun v => v ∈ r.vars ∨ v ∈ l.vars ∨ K v) freshType fun t v => v ∈ t.vars := contained_freshType
  have hdrawn (t : Ty) {u : Ty} (hu : ∀ v ∈ u.vars, v ∈ t.vars) :=
    hequate (.list, u) (K := fun v => v ∈ t.vars ∨ v ∈ r.vars ∨ v ∈ l.vars ∨ K v) (fun v hv => .inr (hleft v hv))
      (fun v hv => .inr (hright v hv)) fun v hv => .inl (hu v hv)
  refine contained_ite (fun _ => hequate (.string, .string) hleft hright nofun) fun _ => ?_
  split
  · exact hequate (.list, _) hleft hright hknown
  · refine hfresh.bind fun elem => ?_
    exact hdrawn elem (u := .list elem) fun _ hv => hv
  · refine (contained_report ..).after fun _ => ?_
    refine hfresh.bind fun t => ?_
    exact hdrawn t fun _ hv => hv

theorem contained_operation (op : BinaryOp) {left right : TypedExpr} (hleft : ∀ v ∈ left.mentions, K v)
    (hright : ∀ v ∈ right.mentions, K v) : Contained old K (operation id op left right) fun t v => v ∈ t.vars := by
  have hl (v : Var) (hv : v ∈ left.ty.vars) : K v := hleft v (TypedExpr.mem_mentions_ty hv)
  have hr (v : Var) (hv : v ∈ right.ty.vars) : K v := hright v (TypedExpr.mem_mentions_ty hv)
  have hdemand (operand : Ty) (className : String) : Contained old (fun v => v ∈ operand.vars ∨ K v) (do
      addClass className operand id .operator
      return operand) fun t v => v ∈ t.vars := by
    refine (contained_addClass _ _ _ fun _ => .inl).after fun _ => ?_
    exact contained_pure fun _ => .inl
  refine contained_ite (fun _ => ?_) fun _ => ?_
  · refine (contained_equate _ _ nofun hl).after fun _ => ?_
    refine (contained_equate _ _ nofun hr).after fun _ => ?_
    exact contained_pure nofun
  refine (contained_equate _ _ hl hr).after fun _ => ?_
  refine contained_flush.after fun _ => ?_
  refine (contained_applied hl).bind fun operand => ?_
  refine contained_ite (fun _ => ?_) fun _ => ?_
  · refine contained_ite (fun _ => hdemand operand _) fun _ => ?_
    exact (contained_numericClass operand).after (hdemand operand)
  · refine (contained_addClass _ _ _ fun _ => .inl).after fun _ => ?_
    exact contained_pure nofun

theorem contained_binary (op : BinaryOp) {left right : TypedExpr} (hleft : ∀ v ∈ left.mentions, K v)
    (hright : ∀ v ∈ right.mentions, K v) : Contained old K (binary id op (pure left) (pure right)) fun e v => v ∈ e.mentions := by
  have hoperands : ∀ e ∈ [left, right], ∀ v ∈ e.mentions, K v := List.forall_mem_cons.mpr ⟨hleft, List.forall_mem_singleton.mpr hright⟩
  rw [binary, pure_bind, pure_bind]
  refine (contained_joinEffects id (List.forall_mem_map.mpr fun e he v hv => ?_ : ∀ e ∈ [left, right].map TypedExpr.effects, _)).bind
    fun effects => ?_
  · exact hoperands e he v (TypedExpr.mem_mentions_effects hv)
  refine contained_ite (fun _ => ?_) fun _ => ?_
  · have hl (v : Var) (hv : v ∈ left.ty.vars) : v ∈ effects.toRow.vars ∨ K v := .inr (hleft v (TypedExpr.mem_mentions_ty hv))
    have hr (v : Var) (hv : v ∈ right.ty.vars) : v ∈ effects.toRow.vars ∨ K v := .inr (hright v (TypedExpr.mem_mentions_ty hv))
    refine (contained_concatenation hl hr).bind fun ⟨kind, t⟩ => ?_
    exact contained_plain (fun _ => .inl) (fun v hv => .inr (.inl hv)) (fun e he v hv => .inr (.inr (hoperands e he v hv))) rfl rfl rfl
  · refine (contained_operation op (fun v hv => .inr (hleft v hv)) fun v hv => .inr (hright v hv)).bind fun t => ?_
    exact contained_plain (fun _ => .inl) (fun v hv => .inr (.inl hv)) (fun e he v hv => .inr (.inr (hoperands e he v hv))) rfl rfl rfl

theorem contained_negation {operand : Ty} (h : ∀ v ∈ operand.vars, K v) :
    Contained old K (negation id operand) fun t v => v ∈ t.vars := by
  refine contained_flush.after fun _ => ?_
  refine (contained_applied h).bind fun t => ?_
  refine (contained_numericClass t).after fun className => ?_
  refine (contained_addClass _ _ _ fun _ => .inl).after fun _ => ?_
  exact contained_pure fun _ => .inl

theorem contained_unary (op : UnaryOp) {operand : TypedExpr} (h : ∀ v ∈ operand.mentions, K v) :
    Contained old K (unary id op (pure operand)) fun e v => v ∈ e.mentions := by
  have hty (v : Var) (hv : v ∈ operand.ty.vars) : K v := h v (TypedExpr.mem_mentions_ty hv)
  have heffects (v : Var) (hv : v ∈ operand.effects.toRow.vars) : K v := h v (TypedExpr.mem_mentions_effects hv)
  rw [unary, pure_bind]
  cases op with
  | not =>
      refine (contained_equate _ _ nofun hty).after fun _ => ?_
      exact contained_plain nofun heffects (List.forall_mem_singleton.mpr h) rfl rfl rfl
  | neg =>
      refine (contained_negation hty).bind fun t => ?_
      exact contained_plain (fun _ => .inl) (fun v hv => .inr (heffects v hv)) (List.forall_mem_singleton.mpr fun v hv => .inr (h v hv))
        rfl rfl rfl

end Operators

section Records

theorem contained_duplicateField (earlier : List String) (name : String) (value : TypedExpr) :
    Contained old K (duplicateField earlier name value) (Silent Unit) :=
  contained_ite (fun _ => contained_report ..) fun _ => contained_idle

theorem contained_record {fields : List (String × TypedExpr)} (h : ∀ f ∈ fields, ∀ v ∈ f.2.mentions, K v) :
    Contained old K (record session id (pure fields)) fun e v => v ∈ e.mentions := by
  rw [record, pure_bind]
  refine (contained_joinEffects id (List.forall_mem_map.mpr fun f hf v hv => ?_)).bind fun effects => ?_
  · exact h f hf v (TypedExpr.mem_mentions_effects hv)
  refine contained_plain (fun v hv => ?_) (fun _ => .inl) (List.forall_mem_map.mpr fun f hf v hv => .inr (h f hf v hv)) rfl rfl rfl
  obtain ⟨_, hf, hv⟩ := RecordEncoding.mem_vars_recordType hv
  obtain ⟨f, hmem, rfl⟩ := List.mem_map.mp (OrderedMap.mem_of_mem_ofList hf)
  exact .inr (h f hmem v (TypedExpr.mem_mentions_ty hv))

theorem contained_tuple {elems : List TypedExpr} (h : ∀ e ∈ elems, ∀ v ∈ e.mentions, K v) :
    Contained old K (tuple id (pure elems)) fun e v => v ∈ e.mentions := by
  rw [tuple, pure_bind]
  refine (contained_joinEffects id (List.forall_mem_map.mpr fun e he v hv => ?_)).bind fun effects => ?_
  · exact h e he v (TypedExpr.mem_mentions_effects hv)
  refine contained_plain (fun v hv => ?_) (fun _ => .inl) (fun e he v hv => .inr (h e he v hv)) rfl rfl rfl
  obtain ⟨_, ht, hv⟩ := Ty.mem_vars_tuple.mp hv
  obtain ⟨e, he, rfl⟩ := List.mem_map.mp ht
  exact .inr (h e he v (TypedExpr.mem_mentions_ty hv))

theorem contained_missingField (t : Ty) (name : String) : Contained old K (missingField id t name) fun t v => v ∈ t.vars :=
  (contained_report ..).after fun _ => contained_freshType

theorem contained_fieldType {t : Ty} (ht : ∀ v ∈ t.vars, K v) (name : String) :
    Contained old K (fieldType id t name) fun t v => v ∈ t.vars := by
  refine contained_flush.after fun _ => ?_
  refine (contained_applied ht).bind fun record => ?_
  split
  · split
    next u hu =>
      obtain ⟨i, -, hi⟩ := Option.bind_eq_some_iff.mp hu
      exact contained_pure fun v hv => .inl (Ty.mem_vars_of_arguments (List.mem_of_getElem? hi) hv)
    next => exact contained_missingField ..
  · refine contained_freshType.bind fun u => ?_
    refine contained_freshRow.bind fun rest => ?_
    refine (contained_equate _ _ (fun v hv => ?_) fun v hv => .inr (.inr (.inl hv))).after fun _ => ?_
    · rcases Row.mem_vars_openRecord hv with ⟨f, hf, hv⟩ | hv
      · rw [List.mem_singleton.mp hf] at hv
        exact .inr (.inl hv)
      · exact .inl hv
    · exact contained_pure fun v hv => .inr (.inl hv)

theorem contained_field {base : TypedExpr} (h : ∀ v ∈ base.mentions, K v) (name : String) :
    Contained old K (field id (pure base) name) fun e v => v ∈ e.mentions := by
  rw [field, pure_bind]
  refine (contained_fieldType (fun v hv => h v (TypedExpr.mem_mentions_ty hv)) name).bind fun t => ?_
  refine contained_plain (fun _ => .inl) (fun v hv => ?_) (List.forall_mem_singleton.mpr fun v hv => .inr (h v hv)) rfl rfl rfl
  exact .inr (h v (TypedExpr.mem_mentions_effects hv))

theorem mem_vars_of_knownFields? {t : Ty} {fields : OrderedMap String Ty} (h : knownFields? t = some fields) {f : String × Ty}
    (hf : f ∈ fields) {w : Var} (hw : w ∈ f.2.vars) : w ∈ t.vars := by
  cases t with
  | record r =>
      cases h
      exact Row.vars_field hf hw
  | app head args =>
      obtain ⟨labels, -, rfl⟩ := Option.map_eq_some_iff.mp h
      exact Ty.mem_vars_app.mpr (.inr ⟨f.2, (List.of_mem_zip (OrderedMap.mem_of_mem_ofList hf)).2, hw⟩)
  | _ => cases h

theorem contained_replaceField {base : Ty} (hbase : ∀ v ∈ base.vars, K v) (name : String) {value : TypedExpr}
    (hvalue : ∀ v ∈ value.mentions, K v) : Contained old K (replaceField base (knownFields? base) name value) (Silent Unit) := by
  cases hfields : knownFields? base with
  | none => exact contained_idle
  | some fields =>
      rw [replaceField]
      split
      next t ht =>
        refine contained_equate _ _ (fun v hv => hbase v ?_) fun v hv => hvalue v (TypedExpr.mem_mentions_ty hv)
        exact mem_vars_of_knownFields? hfields (OrderedMap.mem_of_find? ht) hv
      next => exact contained_report ..

end Records

end InferM

end RowTyping
