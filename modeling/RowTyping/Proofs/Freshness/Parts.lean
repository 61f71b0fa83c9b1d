import RowTyping.Infer.Effects
import RowTyping.Infer.Pattern
import RowTyping.Proofs.Freshness.Actions

namespace RowTyping

section Rows

variable {w : Var}

theorem OrderedMap.mem_of_mem_ofList {κ α : Type} [Ord κ] [Std.LawfulEqOrd κ] {entries : List (κ × α)} {e : κ × α}
    (h : e ∈ OrderedMap.ofList entries) : e ∈ entries :=
  (OrderedMap.mem_merge h).elim (fun h => nomatch h) id

theorem Row.mem_vars_closedRecord {fs : List (Label × Ty)} (h : w ∈ (closedRecord fs).vars) : ∃ f ∈ fs, w ∈ f.2.vars := by
  obtain ⟨f, hf, hw⟩ | ⟨_, hrest, _⟩ := Row.mem_vars.mp h
  · exact ⟨f, OrderedMap.mem_of_mem_ofList hf, hw⟩
  · cases hrest

theorem Row.mem_vars_openRecord {fs : List (Label × Ty)} {r : RowVarId} (h : w ∈ (openRecord fs r).vars) :
    (∃ f ∈ fs, w ∈ f.2.vars) ∨ w = .row r := by
  obtain ⟨f, hf, hw⟩ | ⟨_, ⟨⟩, hw⟩ := Row.mem_vars.mp h
  · exact .inl ⟨f, OrderedMap.mem_of_mem_ofList hf, hw⟩
  · exact .inr hw

theorem Row.mem_vars_openEffects {labels : List Label} {r : RowVarId} (h : w ∈ (openEffects labels r).vars) : w = .row r := by
  obtain ⟨f, hf, hw⟩ | ⟨_, ⟨⟩, hw⟩ := Row.mem_vars.mp h
  · rw [State.mem_unit_fields hf] at hw
    cases hw
  · exact hw

theorem Row.not_mem_vars_closedEffects {labels : List Label} : w ∉ (closedEffects labels).vars := by
  intro h
  obtain ⟨f, hf, hw⟩ | ⟨_, ⟨⟩, _⟩ := Row.mem_vars.mp h
  rw [State.mem_unit_fields hf] at hw
  cases hw

theorem RecordEncoding.mem_vars_recordType {encoding : RecordEncoding} {fields : OrderedMap Label Ty}
    (h : w ∈ (encoding.recordType fields).vars) : ∃ f ∈ fields, w ∈ f.2.vars := by
  cases encoding with
  | rows => exact Row.mem_vars_closedRecord h
  | positional =>
      rcases Ty.mem_vars_app.mp h with h | ⟨t, ht, hw⟩
      · exact absurd h Ty.mem_vars_con
      · obtain ⟨f, hf, rfl⟩ := List.mem_map.mp ht
        exact ⟨f, hf, hw⟩

theorem Ty.mem_vars_latent {ps : List Ty} {e : Effects} {r : Ty} :
    w ∈ (Ty.fn ps e r).vars ↔ (∃ p ∈ ps, w ∈ p.vars) ∨ w ∈ e.toRow.vars ∨ w ∈ r.vars := by
  rw [mem_vars_fn]
  cases e with
  | none => exact or_congr_right (or_congr_left ⟨nofun, fun h => absurd h Row.not_mem_vars_closedEffects⟩)
  | some row => exact or_congr_right (or_congr_left ⟨fun ⟨_, hrow, hw⟩ => Option.some.inj hrow ▸ hw, fun hw => ⟨row, rfl, hw⟩⟩)

namespace Effects

theorem mem_vars_of_tail {e : Effects} {r : RowVarId} (h : e.tail = some r) : .row r ∈ e.toRow.vars := by
  cases e with
  | none => cases h
  | some row =>
      obtain ⟨k, fs, rest⟩ := row
      exact Row.mem_vars.mpr (.inr ⟨r, h, rfl⟩)

theorem mem_vars_union {a b : Effects} (h : w ∈ (union a b).toRow.vars) : w ∈ a.toRow.vars ∨ w ∈ b.toRow.vars := by
  cases a with
  | none => exact .inr h
  | some a =>
      cases b with
      | none => exact .inl h
      | some b =>
          obtain ⟨f, hf, hw⟩ | ⟨r, hr, rfl⟩ := Row.mem_vars.mp h
          · exact (OrderedMap.mem_merge hf).imp (fun hf => Row.vars_field hf hw) fun hf => Row.vars_field hf hw
          · have htail : a.rest = some r ∨ b.rest = some r := by
              cases ha : a.rest <;> cases hb : b.rest <;> simp only [ha, hb, Effects.unionTail] at hr ⊢ <;> grind
            exact htail.imp mem_vars_of_tail mem_vars_of_tail

theorem mem_vars_unionAll {rows : List Effects} (h : w ∈ (unionAll rows).toRow.vars) : ∃ e ∈ rows, w ∈ e.toRow.vars := by
  have hfoldl (rows : List Effects) {e : Effects} (h : w ∈ (rows.foldl union e).toRow.vars) :
      w ∈ e.toRow.vars ∨ ∃ e ∈ rows, w ∈ e.toRow.vars := by
    induction rows generalizing e with
    | nil => exact .inl h
    | cons row rows ih =>
        rcases ih h with h | ⟨e', he', h⟩
        · exact (mem_vars_union h).imp_right fun h => ⟨row, List.mem_cons_self, h⟩
        · exact .inr ⟨e', List.mem_cons_of_mem row he', h⟩
  exact (hfoldl rows h).resolve_left Row.not_mem_vars_closedEffects

theorem mem_vars_normalize {e : Effects} (h : w ∈ (normalize e).toRow.vars) : w ∈ e.toRow.vars := by
  rw [normalize] at h
  split at h
  · exact absurd h Row.not_mem_vars_closedEffects
  · exact h

theorem not_mem_vars_elaborate {names : List String} {declared : Effects} (h : elaborate names = .ok declared) :
    w ∉ declared.toRow.vars := by
  rw [elaborate] at h
  split at h
  · cases h
  · cases h
    split <;> exact Row.not_mem_vars_closedEffects

end Effects

end Rows

namespace InferM

open Walk

variable {α : Type} {old : List Var} {session : Session} {env : Env} {K : Var → Prop}

section Instances

theorem contained_freshTypeRenaming {vs : List TypeVar} (h : ∀ v ∈ vs, K (.type v.id)) :
    Contained old K (freshTypeRenaming vs) fun types v => ∃ e ∈ types, v = .type e.1 ∨ v ∈ e.2.vars := by
  induction vs generalizing K with
  | nil => exact contained_pure nofun
  | cons v vs ih =>
      rw [List.forall_mem_cons] at h
      refine contained_freshTypeVar.bind fun fresh => ?_
      refine contained_cons ?_ (ih fun v hv => .inr (h.2 v hv))
      rintro w (rfl | hw)
      · exact .inr h.1
      · exact .inl (Ty.mem_vars_var.mp hw)

theorem contained_freshRowRenaming {rs : List RowVarId} (h : ∀ r ∈ rs, K (.row r)) :
    Contained old K (freshRowRenaming rs) fun rows v => ∃ e ∈ rows, v = .row e.1 ∨ v ∈ e.2.vars := by
  induction rs generalizing K with
  | nil => exact contained_pure nofun
  | cons r rs ih =>
      rw [List.forall_mem_cons] at h
      refine contained_freshRow.bind fun fresh => ?_
      refine contained_cons ?_ (ih fun r hr => .inr (h.2 r hr))
      rintro w (rfl | hw)
      · exact .inr h.1
      · exact .inl ((Row.mem_vars_openRecord hw).resolve_left nofun)

theorem contained_instantiate {scheme : Scheme} (h : ∀ v ∈ scheme.mentions, K v) (node : NodeId) :
    Contained old K (instantiate scheme node) fun t v => v ∈ t.vars := by
  have hty (v : Var) (hv : v ∈ scheme.ty.vars) : K v := h v (Scheme.mem_mentions.mpr (.inl hv))
  have hquantified (v : Var) (hv : v ∈ scheme.quantified) : K v := h v (Scheme.mem_mentions.mpr (.inr (.inr hv)))
  refine contained_ite (fun _ => contained_pure hty) fun _ => ?_
  refine (contained_freshTypeRenaming fun v hv => ?_).bind fun types => ?_
  · exact hquantified _ (Scheme.type_mem_quantified.mpr (List.mem_map_of_mem hv))
  refine (contained_freshRowRenaming fun r hr => ?_).bind fun rows => ?_
  · exact .inr (hquantified _ (Scheme.row_mem_quantified.mpr hr))
  have hmapping {t : Ty} (ht : ∀ v ∈ t.vars, K v) (w : Var)
      (hw : w ∈ ((⟨OrderedMap.ofList types, OrderedMap.ofList rows⟩ : Substitution).apply t).vars) :
      (∃ e ∈ rows, w = .row e.1 ∨ w ∈ e.2.vars) ∨ (∃ e ∈ types, w = .type e.1 ∨ w ∈ e.2.vars) ∨ K w := by
    rcases Substitution.mem_vars_or_mentions hw with hw | hw
    · exact .inr (.inr (ht w hw))
    · rcases Substitution.mem_mentions.mp hw with ⟨e, he, hw⟩ | ⟨e, he, hw⟩
      · exact .inr (.inl ⟨e, OrderedMap.mem_of_mem_ofList he, hw⟩)
      · exact .inl ⟨e, OrderedMap.mem_of_mem_ofList he, hw⟩
  refine (contained_forM fun p hp => ?_).after fun _ => ?_
  · exact contained_addClass _ node _ (hmapping fun v hv => h v (Scheme.mem_mentions.mpr (.inr (.inl ⟨p, hp, hv⟩))))
  refine (contained_note ..).after fun _ => ?_
  exact contained_pure (hmapping hty)

end Instances

section Effects

theorem contained_joinEffects (node : NodeId) {rows : List Effects} (h : ∀ e ∈ rows, ∀ v ∈ e.toRow.vars, K v) :
    Contained old K (joinEffects node rows) fun e v => v ∈ e.toRow.vars := by
  refine contained_get fun c => ?_
  have hrows : ∀ e ∈ rows.map c.subst.applyEffects, ∀ v ∈ e.toRow.vars, v ∈ c.subst.mentions ∨ K v :=
    List.forall_mem_map.mpr fun e he v hv => (Substitution.mem_vars_or_mentions_effects hv).symm.imp_right (h e he v)
  generalize rows.map c.subst.applyEffects = rows at hrows
  have hunion : Contained old (fun v => v ∈ c.subst.mentions ∨ K v) (do
      return Effects.normalize ((← get).subst.applyEffects (Effects.unionAll rows))) fun e v => v ∈ e.toRow.vars := by
    refine contained_get fun c' => ?_
    refine contained_pure fun v hv => ?_
    rcases Substitution.mem_vars_or_mentions_effects (Effects.mem_vars_normalize hv) with hv | hv
    · obtain ⟨e, he, hv⟩ := Effects.mem_vars_unionAll hv
      exact .inr (hrows e he v hv)
    · exact .inl hv
  dsimp only
  split
  next first second others htails =>
    have htail : ∀ r ∈ first :: second :: others, ∀ v ∈ (Row.openEffects [] r).vars, v ∈ c.subst.mentions ∨ K v := by
      rintro r hr v hv
      rw [← htails, OrderedSet.mem_ofList, List.mem_filterMap] at hr
      obtain ⟨e, he, htail⟩ := hr
      exact hrows e he v (Row.mem_vars_openEffects hv ▸ Effects.mem_vars_of_tail htail)
    rw [List.forall_mem_cons] at htail
    refine (contained_forM fun r hr => contained_equateRows _ _ htail.1 (htail.2 r hr)).after fun _ => ?_
    refine contained_flush.after fun _ => ?_
    exact hunion
  next => exact hunion

theorem contained_openLatentEffects {t : Ty} (ht : ∀ v ∈ t.vars, K v) :
    Contained old K (openLatentEffects t) fun t v => v ∈ t.vars := by
  cases t with
  | fn ps e r =>
      refine contained_ite (fun _ => contained_pure ht) fun _ => ?_
      refine contained_freshRow.bind fun tail => ?_
      refine contained_pure fun v hv => ?_
      rcases Ty.mem_vars_latent.mp hv with hv | hv | hv
      · exact .inr (ht v (Ty.mem_vars_latent.mpr (.inl hv)))
      · exact .inl (Row.mem_vars_openEffects hv)
      · exact .inr (ht v (Ty.mem_vars_latent.mpr (.inr (.inr hv))))
  | _ => exact contained_pure ht

theorem contained_checkSignature (node : NodeId) {body declared : Effects} (hbody : ∀ v ∈ body.toRow.vars, K v)
    (hdeclared : ∀ v ∈ declared.toRow.vars, K v) : Contained old K (checkSignature node body declared) (Silent Unit) := by
  refine contained_flush.after fun _ => ?_
  refine contained_get fun c => ?_
  refine contained_ite (fun _ => ?_) fun _ => ?_
  · refine (contained_equateRows _ _ (fun v hv => .inr (hdeclared v hv)) fun v hv => ?_).after fun _ => contained_flush
    exact (Substitution.mem_vars_or_mentions_effects hv).symm.imp_right (hbody v)
  · exact contained_ite (fun _ => contained_report ..) fun _ => contained_idle

theorem contained_checkCaptures (lambda : Expr) : Contained old K (checkCaptures session env lambda) (Silent Unit) := by
  refine contained_ite (fun _ => contained_idle) fun _ => ?_
  refine contained_flush.after fun _ => ?_
  refine contained_forM fun name _ => ?_
  split
  · exact contained_idle
  next scheme hlookup =>
    refine (contained_get fun c => contained_pure fun _ => False.elim).after fun t => ?_
    split
    · exact contained_idle
    · exact contained_report ..

theorem contained_latentEffects (node : NodeId) {body : Effects} (h : ∀ v ∈ body.toRow.vars, K v) :
    Contained old K (latentEffects session node body) fun e v => v ∈ e.toRow.vars := by
  rw [latentEffects]
  cases session.signatures.find? node with
  | none => exact contained_pure h
  | some names =>
      dsimp only
      cases helaborate : Effects.elaborate names with
      | ok declared =>
          have hdeclared (v : Var) (hv : v ∈ declared.toRow.vars) : K v := absurd hv (Effects.not_mem_vars_elaborate helaborate)
          exact (contained_checkSignature node h hdeclared).after fun _ => contained_pure hdeclared
      | error d => exact (contained_report ..).after fun _ => contained_pure h

end Effects

section Patterns

variable {bound : BoundNames}

def Binds (V : α → Var → Prop) (out : α × BoundNames) (v : Var) : Prop :=
  V out.1 v ∨ ∃ b ∈ out.2, v ∈ b.2.vars

theorem contained_binds {a : α} {V : α → Var → Prop} (ha : ∀ v, V a v → K v) (hbound : ∀ b ∈ bound, ∀ v ∈ b.2.vars, K v) :
    Contained old K (pure (a, bound)) (Binds V) := by
  refine contained_pure fun v hv => ?_
  rcases hv with hv | ⟨b, hb, hv⟩
  · exact ha v hv
  · exact hbound b hb v hv

theorem contained_literalType (node : NodeId) (l : Literal) : Contained old K (literalType node l) fun t v => v ∈ t.vars := by
  cases l with
  | int | float =>
      refine contained_freshType.bind fun t => ?_
      refine (contained_addClass _ _ _ fun _ => .inl).after fun _ => ?_
      exact contained_pure fun _ => .inl
  | _ => exact contained_pure nofun

theorem contained_bindName (node : NodeId) (hbound : ∀ b ∈ bound, ∀ v ∈ b.2.vars, K v) (name : String) :
    Contained old K (bindName node bound name) (Binds fun p v => v ∈ p.mentions) := by
  refine contained_freshType.bind fun t => ?_
  have hp (v : Var) (hv : v ∈ (TypedPattern.var node t name).mentions) : v ∈ t.vars ∨ K v :=
    .inl ((TypedPattern.mem_mentions_of_leaf rfl).mp hv)
  have hbound' (b : String × Ty) (hb : b ∈ bound) (v : Var) (hv : v ∈ b.2.vars) : v ∈ t.vars ∨ K v := .inr (hbound b hb v hv)
  split
  next earlier hearlier =>
    have hearlier := hbound' _ (OrderedMap.mem_of_find? hearlier)
    exact (contained_equate _ _ hearlier fun _ => .inl).after fun _ => contained_binds hp hbound'
  next =>
    refine contained_binds hp fun b hb v hv => ?_
    rcases OrderedMap.mem_insert hb with rfl | hb
    · exact .inl hv
    · exact hbound' b hb v hv

theorem contained_recordPatternType {fields : List (String × TypedPattern)} (h : ∀ f ∈ fields, ∀ v ∈ f.2.mentions, K v)
    (isOpen : Bool) : Contained old K (recordPatternType session fields isOpen) fun t v => v ∈ t.vars := by
  have hfields (v : Var) (f : Label × Ty) (hf : f ∈ OrderedMap.ofList (fields.map fun f => (f.1, f.2.ty))) (hv : v ∈ f.2.vars) : K v := by
    obtain ⟨f, hmem, rfl⟩ := List.mem_map.mp (OrderedMap.mem_of_mem_ofList hf)
    exact h f hmem v (TypedPattern.mem_mentions_ty hv)
  refine contained_ite (fun _ => ?_) fun _ => ?_
  · refine contained_freshRow.bind fun r => ?_
    refine contained_pure fun v hv => ?_
    rcases Row.mem_vars_openRecord hv with ⟨f, hf, hv⟩ | hv
    · exact .inr (hfields v f hf hv)
    · exact .inl hv
  · refine contained_pure fun v hv => ?_
    obtain ⟨f, hf, hv⟩ := RecordEncoding.mem_vars_recordType hv
    exact hfields v f hf hv

mutual

theorem contained_inferPattern {K : Var → Prop} {bound : BoundNames} (hbound : ∀ b ∈ bound, ∀ v ∈ b.2.vars, K v) (p : Pattern) :
    Contained old K (inferPattern session bound p) (Binds fun p v => v ∈ p.mentions) := by
  cases p with
  | wildcard id =>
      refine contained_freshType.bind fun t => ?_
      refine contained_binds (fun v hv => ?_) fun b hb v hv => .inr (hbound b hb v hv)
      exact .inl ((TypedPattern.mem_mentions_of_leaf rfl).mp hv)
  | var id name => exact contained_bindName id hbound name
  | lit id l =>
      refine (contained_literalType id l).bind fun t => ?_
      refine contained_binds (fun v hv => ?_) fun b hb v hv => .inr (hbound b hb v hv)
      exact .inl ((TypedPattern.mem_mentions_of_leaf rfl).mp hv)
  | tuple id ps =>
      refine (contained_inferPatterns (fun _ => contained_idle) hbound ps).bind fun out => ?_
      refine contained_binds (fun v hv => ?_) fun b hb v hv => .inl (.inr ⟨b, hb, hv⟩)
      rcases TypedPattern.mem_mentions_tuple.mp hv with hv | hv
      · obtain ⟨_, ht, hv⟩ := Ty.mem_vars_tuple.mp hv
        obtain ⟨p, hp, rfl⟩ := List.mem_map.mp ht
        exact .inl (.inl ⟨p, hp, TypedPattern.mem_mentions_ty hv⟩)
      · exact .inl (.inl hv)
  | list id ps rest =>
      refine contained_freshType.bind fun elem => ?_
      have hequate (p : TypedPattern) (node : NodeId) (reason : Reason) {t : Ty} (ht : ∀ v ∈ t.vars, v ∈ elem.vars) :
          Contained old (fun v => v ∈ p.mentions ∨ v ∈ elem.vars ∨ K v) (equate node reason t p.ty) (Silent Unit) :=
        contained_equate node reason (fun v hv => .inr (.inl (ht v hv))) fun v hv => .inl (TypedPattern.mem_mentions_ty hv)
      have hbound' (b : String × Ty) (hb : b ∈ bound) (v : Var) (hv : v ∈ b.2.vars) : v ∈ elem.vars ∨ K v := .inr (hbound b hb v hv)
      refine (contained_inferPatterns (hequate · _ _ fun _ hv => hv) hbound' ps).bind fun ⟨ps, bound'⟩ => ?_
      have hafter (p : TypedPattern) := (hequate p p.id .patternMatch (t := .list elem) fun _ hv => hv).knows
        (K := fun v => v ∈ p.mentions ∨ Binds (fun ps v => ∃ p ∈ ps, v ∈ p.mentions) (ps, bound') v ∨ v ∈ elem.vars ∨ K v)
        fun v => .imp_right .inr
      refine (contained_inferPatternRest hafter (fun b hb v hv => .inl (.inr ⟨b, hb, hv⟩)) rest).bind fun out => ?_
      refine contained_binds (fun v hv => ?_) fun b hb v hv => .inl (.inr ⟨b, hb, hv⟩)
      rcases TypedPattern.mem_mentions_list.mp hv with hv | hv | hv
      · exact .inr (.inr (.inl hv))
      · exact .inr (.inl (.inl hv))
      · exact .inl (.inl hv)
  | record id fs isOpen =>
      refine (contained_inferPatternFields hbound fs).bind fun out => ?_
      refine (contained_recordPatternType (fun f hf v hv => .inl (.inl ⟨f, hf, hv⟩)) isOpen).bind fun t => ?_
      refine contained_binds (fun v hv => ?_) fun b hb v hv => .inr (.inl (.inr ⟨b, hb, hv⟩))
      rcases TypedPattern.mem_mentions_record.mp hv with hv | hv
      · exact .inl hv
      · exact .inr (.inl (.inl hv))
termination_by structural p

theorem contained_inferPatterns {K : Var → Prop} {bound : BoundNames} {after : TypedPattern → InferM Unit}
    (hafter : ∀ p, Contained old (fun v => v ∈ p.mentions ∨ K v) (after p) (Silent Unit))
    (hbound : ∀ b ∈ bound, ∀ v ∈ b.2.vars, K v) (ps : List Pattern) :
    Contained old K (inferPatterns session after bound ps) (Binds fun ps v => ∃ p ∈ ps, v ∈ p.mentions) := by
  cases ps with
  | nil => exact contained_binds nofun hbound
  | cons p ps =>
      refine (contained_inferPattern hbound p).bind fun out => ?_
      refine ((hafter out.1).knows fun v => .imp_left .inl).after fun _ => ?_
      have hafter' (p : TypedPattern) := (hafter p).knows
        (K := fun v => v ∈ p.mentions ∨ Binds (fun p v => v ∈ p.mentions) out v ∨ K v) fun v => .imp_right .inr
      refine (contained_inferPatterns hafter' (fun b hb v hv => .inl (.inr ⟨b, hb, hv⟩)) ps).bind fun out' => ?_
      refine contained_binds (fun v hv => ?_) fun b hb v hv => .inl (.inr ⟨b, hb, hv⟩)
      rcases (List.exists_mem_cons_iff ..).mp hv with hv | hv
      · exact .inr (.inl (.inl hv))
      · exact .inl (.inl hv)
termination_by structural ps

theorem contained_inferPatternRest {K : Var → Prop} {bound : BoundNames} {after : TypedPattern → InferM Unit}
    (hafter : ∀ p, Contained old (fun v => v ∈ p.mentions ∨ K v) (after p) (Silent Unit))
    (hbound : ∀ b ∈ bound, ∀ v ∈ b.2.vars, K v) (p : Option Pattern) :
    Contained old K (inferPatternRest session after bound p) (Binds fun rest v => ∃ p ∈ rest, v ∈ p.mentions) := by
  cases p with
  | none => exact contained_binds nofun hbound
  | some p =>
      refine (contained_inferPattern hbound p).bind fun out => ?_
      refine ((hafter out.1).knows fun v => .imp_left .inl).after fun _ => ?_
      refine contained_binds ?_ fun b hb v hv => .inl (.inr ⟨b, hb, hv⟩)
      rintro v ⟨p, ⟨⟩, hv⟩
      exact .inl (.inl hv)
termination_by structural p

theorem contained_inferPatternFields {K : Var → Prop} {bound : BoundNames} (hbound : ∀ b ∈ bound, ∀ v ∈ b.2.vars, K v)
    (fs : List (String × Pattern)) :
    Contained old K (inferPatternFields session bound fs) (Binds fun fs v => ∃ f ∈ fs, v ∈ f.2.mentions) := by
  cases fs with
  | nil => exact contained_binds nofun hbound
  | cons f fs =>
      refine (contained_inferPattern hbound f.2).bind fun out => ?_
      refine (contained_inferPatternFields (fun b hb v hv => .inl (.inr ⟨b, hb, hv⟩)) fs).bind fun out' => ?_
      refine contained_binds (fun v hv => ?_) fun b hb v hv => .inl (.inr ⟨b, hb, hv⟩)
      rcases (List.exists_mem_cons_iff ..).mp hv with hv | hv
      · exact .inr (.inl (.inl hv))
      · exact .inl (.inl hv)
termination_by structural fs

end

end Patterns

end InferM

end RowTyping
