import RowTyping.Infer.Effects
import RowTyping.Proofs.Renumbering.Boundary

namespace RowTyping

theorem Effects.renumber_of_elaborate {π : Renumbering} {names : List String} {e : Effects} (h : elaborate names = .ok e) :
    e.renumber π = e := by
  rw [elaborate] at h
  split at h
  · cases h
  · cases h
    split
    · rfl
    · exact renumber_closed names

theorem Effects.text_renumber {π : Renumbering} {e : Effects} (h : e.tail = none) : (e.renumber π).text = e.text := by
  cases e with
  | none => rfl
  | some r =>
      have hrest : r.rest = none := h
      exact Row.effectsText_renumber fun id hid => by rw [hrest] at hid; cases hid

namespace InferM

variable {r : Registry}

theorem applyEffects_renumber {π : Renumbering} {k : Sketch} {c : Context} (h : k.Renders π c) (hπ : π.Ascends) (e : Effects) :
    c.subst.applyEffects (e.renumber π) = (k.context.subst.applyEffects e).renumber π := by
  rw [Context.subst, h.unifier.subst, Substitution.applyEffects_renumber _ hπ]
  rfl

theorem uniform_joinEffects (node : NodeId) (rows : List Effects) :
    Uniform Effects.renumber fun v : Variant r => joinEffects node (rows.map (Effects.renumber v.numbers)) := by
  refine uniform_get (F := ?F) (fun k v c h => ?_) fun k => ?_
  case refine_1 =>
    have hrows : (rows.map (Effects.renumber v.numbers)).map c.subst.applyEffects =
        (rows.map k.context.subst.applyEffects).map (Effects.renumber v.numbers) :=
      map_map_comm fun e _ => applyEffects_renumber h v.ascends e
    have htails (rows : List Effects) : OrderedSet.ofList ((rows.map (Effects.renumber v.numbers)).filterMap Effects.tail) =
        (OrderedSet.ofList (rows.filterMap Effects.tail)).map v.numbers.row := by
      rw [OrderedSet.map_ofList (keepsOrder_of_strictMono v.ascends.row), List.filterMap_map, List.map_filterMap]
      exact congrArg _ (List.filterMap_congr fun e _ => e.tail_renumber)
    simp only [hrows, htails, Effects.unionAll_renumber v.ascends]
    rfl
  have hjoined (e : Effects) : Uniform Effects.renumber fun v : Variant r => do
      return Effects.normalize ((← get).subst.applyEffects (e.renumber v.numbers)) :=
    uniform_gets fun k => ⟨Effects.normalize (k.context.subst.applyEffects e), fun v c h => by
      rw [applyEffects_renumber h v.ascends, Effects.normalize_renumber]⟩
  generalize OrderedSet.ofList ((rows.map k.context.subst.applyEffects).filterMap Effects.tail) = tails
  cases tails with
  | nil => exact hjoined _
  | cons first tails =>
      cases tails with
      | nil => exact hjoined _
      | cons second others =>
          have hequate := uniform_equateTails (r := r) node (.openEffects [] first) (second :: others)
          simp only [Row.renumber_openEffects] at hequate
          refine hequate.bind fun _ => ?_
          refine uniform_flush.bind fun _ => ?_
          exact hjoined _

theorem uniform_openLatentEffects (t : Ty) :
    Uniform Ty.renumber fun v : Variant r => openLatentEffects (t.renumber v.numbers) := by
  cases t with
  | fn ps e result =>
      simp only [Ty.renumber_fn, openLatentEffects, Effects.tail_renumber, Option.isSome_map, Effects.labels_renumber]
      refine uniform_ite (fun _ => ?_) fun _ => uniform_freshRow.bind fun rest => ?_
      · exact uniform_pure_of_eq (.fn ps e result) fun _ => (Ty.renumber_fn ..).symm
      · exact uniform_pure_of_eq (.fn ps (Effects.opened (Effects.labels e) rest) result) fun _ => by
          rw [Ty.renumber_fn, Effects.renumber_opened]
  | _ => exact uniform_pure (σ := Ty.renumber) _

theorem uniform_checkSignature (node : NodeId) (body : Effects) {declared : Effects}
    (hdeclared : ∀ π : Renumbering, declared.renumber π = declared) :
    Uniform plainly fun v : Variant r => checkSignature node (body.renumber v.numbers) declared := by
  refine uniform_flush.bind fun _ => uniform_get (F := ?F) (fun k v c h => ?_) fun k => ?_
  case refine_1 =>
    simp only [applyEffects_renumber h v.ascends, Effects.tail_renumber, Option.isSome_map, Effects.toRow_renumber, Effects.labels_renumber,
      h.path]
    rfl
  generalize k.context.subst.applyEffects body = actual
  have hsubsumed (v : Variant r) : Effects.subsumed (actual.renumber v.numbers) declared = Effects.subsumed actual declared := by
    simpa only [hdeclared] using Effects.subsumed_renumber (π := v.numbers) actual declared
  have hrow (v : Variant r) : declared.toRow.renumber v.numbers = declared.toRow := by
    rw [← Effects.toRow_renumber, hdeclared]
  simp only [hsubsumed]
  refine uniform_ite (fun _ => ?_) fun htail => uniform_ite (fun _ => ?_) fun _ => uniform_pure (σ := plainly) ()
  · have h := uniform_equateRows (r := r) node .declaredEffects declared.toRow actual.toRow
    simp only [hrow] at h
    exact h.bind fun _ => uniform_flush
  · simp only [fun v : Variant r => Effects.text_renumber (π := v.numbers) (Option.not_isSome_iff_eq_none.mp htail)]
    exact uniform_report node _

theorem uniform_checkCaptures (session : Session) (env : Env) (lambda : Expr) :
    Uniform plainly fun v : Variant r => checkCaptures (v.session session) (env.renumber v.numbers) lambda := by
  simp only [checkCaptures, Variant.linearCapabilities_session, Env.lookupLocal_renumber]
  refine uniform_ite (fun _ => uniform_pure (σ := plainly) ()) fun _ => ?_
  refine uniform_flush.bind fun _ => ?_
  refine uniform_forM fun name _ => ?_
  cases env.lookupLocal name with
  | none => exact uniform_pure (σ := plainly) ()
  | some scheme =>
      refine (uniform_applied scheme.ty).bind fun t => ?_
      simp only [Ty.latentLabels_renumber]
      cases t.latentLabels.find? session.config.linearCapabilities.contains with
      | none => exact uniform_pure (σ := plainly) ()
      | some capability => exact uniform_report lambda.id (captureDiagnostic name capability)

theorem uniform_latentEffects (session : Session) (node : NodeId) (body : Effects) :
    Uniform Effects.renumber fun v : Variant r => latentEffects (v.session session) node (body.renumber v.numbers) := by
  simp only [latentEffects, Variant.signatures_session]
  cases session.signatures.find? node with
  | none => exact uniform_pure body
  | some names =>
      cases helaborate : Effects.elaborate names with
      | error d =>
          simp only [helaborate]
          exact (uniform_report node d).bind fun _ => uniform_pure body
      | ok declared =>
          simp only [helaborate]
          have hdeclared (π : Renumbering) := Effects.renumber_of_elaborate (π := π) helaborate
          refine (uniform_checkSignature node body hdeclared).bind fun _ => ?_
          simpa only [hdeclared] using uniform_pure (r := r) (σ := Effects.renumber) declared

end InferM

end RowTyping
