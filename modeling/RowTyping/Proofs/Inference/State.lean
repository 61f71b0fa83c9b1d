import RowTyping.Proofs.Inference.Ensures
import RowTyping.Proofs.Inference.Scopes
import RowTyping.Proofs.Shape
import RowTyping.Proofs.Unification.Labels
/-!
The states of inference. A state is a context, perhaps with a layout of the labels of record rows. What
follows a state has solved or still has all its equations, so that an assignment that a later state accepts is one that
the earlier state accepts.
-/

namespace RowTyping

structure State where
  context : Context
  layout : Option Layout

structure Layout.Records (φ : Layout) : Prop where
  tracks : ∀ k, φ.tracks k = (k == .recordRow)
  held : ∀ t, φ.held t ↔ t = .unit

namespace State

abbrev supply (s : State) : Supply :=
  s.context.unifier.supply

abbrev subst (s : State) : Substitution :=
  s.context.subst

structure Owns (s : State) (t : Ty) : Prop where
  within : t.Within s.supply
  conforms : ∀ φ ∈ s.layout, t.Conforms φ Nowhere
  shaped : ∀ φ ∈ s.layout, t.Shaped φ.positional

structure OwnsRow (s : State) (r : Row) : Prop where
  within : r.Within s.supply
  conforms : ∀ φ ∈ s.layout, ∀ r' ∈ r.rows, r'.Conforms φ Nowhere (r'.start φ)
  shaped : ∀ φ ∈ s.layout, r.Shaped φ.positional

structure OwnsEffects (s : State) (e : Effects) : Prop extends s.OwnsRow e.toRow where
  kind : ∀ φ ∈ s.layout, e.toRow.kind = .effectRow

abbrev OwnsGoal (s : State) (g : Goal) : Prop :=
  g.Both s.Owns s.OwnsRow

structure Ready (s : State) : Prop where
  unifier : s.context.unifier.Ready
  records : ∀ φ ∈ s.layout, φ.Records
  conforms : ∀ φ ∈ s.layout, s.subst.Conforms φ Nowhere
  shaped : ∀ φ ∈ s.layout, s.subst.All (Ty.Shaped φ.positional) (Row.Shaped φ.positional)
  equations : ∀ q ∈ s.context.equations.toList, s.OwnsGoal q.goal
  classes : ∀ k ∈ s.context.classes.toList, k.ty.Within s.supply
  resolved : ∀ e ∈ s.context.resolved.entries, e.ty.isGround = true

structure Accepts (s : State) (A : Assignment) : Prop where
  ordered : A.Ordered
  models : A.Models s.subst
  errors : s.context.errors = []
  equations : ∀ q ∈ s.context.equations.toList, q.goal.Holds A
  respects : ∀ φ ∈ s.layout, ∀ q, s.supply.Covers (.row q) → A.RespectsAt φ q

def Rowed (s : State) : Prop :=
  ∃ φ ∈ s.layout, φ.positional = false

/-- Everything but the class constraints, whose scopes are opened and closed on the way. -/
structure Follows (s s' : State) : Prop where
  covers : ∀ v, s.supply.Covers v → s'.supply.Covers v
  grows : s'.subst.Extends s.subst
  layout : Option.Rel (fun φ φ' => φ.Agrees φ' s.supply) s.layout s'.layout
  errors : s'.context.errors = [] → s.context.errors = []
  equations : ∀ A, s'.Accepts A → ∀ q ∈ s.context.equations.toList, q.goal.Holds A
  resolved : ∀ node, ∀ e ∈ s.context.resolved.get node, e ∈ s'.context.resolved.get node

structure Carries (s s' : State) (g : Ty → Ty) : Prop where
  within : ∀ t : Ty, t.Within s.supply → (g t).Within s'.supply
  value : ∀ t : Ty, t.Within s.supply → ∀ A, s'.Accepts A → (g t).value A = t.value A

structure Leads (s s' : State) : Prop extends s.Follows s' where
  classes : ∃ g ks, s'.context.classes = (s.context.classes.map (ClassConstraint.mapTy g)).append ks ∧ s.Carries s' g

variable {s s₁ s' : State}

namespace Follows

theorem isSome (h : s.Follows s') : s'.layout.isSome = s.layout.isSome := by
  have hlayout := h.layout
  generalize s.layout = l, s'.layout = l' at hlayout
  cases hlayout <;> rfl

theorem agrees (h : s.Follows s') {φ' : Layout} (hφ' : φ' ∈ s'.layout) : ∃ φ ∈ s.layout, φ.Agrees φ' s.supply := by
  have hlayout := h.layout
  generalize s.layout = l, s'.layout = l' at hlayout hφ'
  cases hlayout with
  | none => cases hφ'
  | some hagree =>
      cases hφ'
      exact ⟨_, rfl, hagree⟩

theorem agrees_left (h : s.Follows s') {φ : Layout} (hφ : φ ∈ s.layout) : ∃ φ' ∈ s'.layout, φ.Agrees φ' s.supply := by
  have hlayout := h.layout
  generalize s.layout = l, s'.layout = l' at hlayout hφ
  cases hlayout with
  | none => cases hφ
  | some hagree =>
      cases hφ
      exact ⟨_, rfl, hagree⟩

theorem rowed (h : s.Follows s') : s'.Rowed ↔ s.Rowed := by
  constructor
  · rintro ⟨φ', hφ', hrows⟩
    obtain ⟨φ, hφ, hagree⟩ := h.agrees hφ'
    exact ⟨φ, hφ, hagree.positional ▸ hrows⟩
  · rintro ⟨φ, hφ, hrows⟩
    obtain ⟨φ', hφ', hagree⟩ := h.agrees_left hφ
    exact ⟨φ', hφ', hagree.positional.trans hrows⟩

theorem refl (s : State) : s.Follows s where
  covers _ h := h
  grows := .refl _
  layout := by
    cases s.layout with
    | none => exact .none
    | some φ => exact .some (.refl φ _)
  errors h := h
  equations _ h := h.equations
  resolved _ _ h := h

theorem accepts (h : s.Follows s') {A : Assignment} (hA : s'.Accepts A) : s.Accepts A where
  ordered := hA.ordered
  models := hA.models.of_extends h.grows
  errors := h.errors hA.errors
  equations := h.equations A hA
  respects φ hφ q hq := by
    obtain ⟨φ', hφ', hagree⟩ := h.agrees_left hφ
    intro fs hfs
    exact hA.respects φ' hφ' q (h.covers _ hq) fs ((hagree.fields q hq).trans hfs)

theorem trans (h : s.Follows s₁) (h' : s₁.Follows s') : s.Follows s' where
  covers v hv := h'.covers v (h.covers v hv)
  grows := h'.grows.trans h.grows
  layout := by
    have hlayout := h.layout
    have hlayout' := h'.layout
    generalize s.layout = l, s₁.layout = l₁, s'.layout = l' at hlayout hlayout'
    cases hlayout with
    | none =>
        cases hlayout'
        exact .none
    | some hagree =>
        cases hlayout' with
        | some hagree' => exact .some (hagree.trans hagree' h.covers)
  errors hs' := h.errors (h'.errors hs')
  equations A hA := h.equations A (h'.accepts hA)
  resolved node e he := h'.resolved node e (h.resolved node e he)

theorem owns (h : s.Follows s') {t : Ty} (ht : s.Owns t) : s'.Owns t where
  within := ht.within.mono h.covers
  conforms φ' hφ' := by
    obtain ⟨φ, hφ, hagree⟩ := h.agrees hφ'
    exact (ht.conforms φ hφ).agrees hagree ht.within
  shaped φ' hφ' := by
    obtain ⟨φ, hφ, hagree⟩ := h.agrees hφ'
    exact hagree.positional ▸ ht.shaped φ hφ

theorem ownsRow (h : s.Follows s') {r : Row} (hr : s.OwnsRow r) : s'.OwnsRow r where
  within := hr.within.mono h.covers
  conforms φ' hφ' := by
    obtain ⟨φ, hφ, hagree⟩ := h.agrees hφ'
    have hin := (Row.conforms_start_iff.mp (hr.conforms φ hφ)).agrees hagree hr.within
    rw [Row.start, ← hagree.tracks] at hin
    exact Row.conforms_start_iff.mpr hin
  shaped φ' hφ' := by
    obtain ⟨φ, hφ, hagree⟩ := h.agrees hφ'
    exact hagree.positional ▸ hr.shaped φ hφ

theorem ownsEffects (h : s.Follows s') {e : Effects} (he : s.OwnsEffects e) : s'.OwnsEffects e :=
  ⟨h.ownsRow he.toOwnsRow, fun _ hφ' => (h.agrees hφ').elim fun φ hφ => he.kind φ hφ.1⟩

end Follows

namespace Leads

theorem refl (s : State) : s.Leads s := by
  refine ⟨.refl s, fun t => t, [], ?_, fun _ ht => ht, fun _ _ _ _ => rfl⟩
  rw [Scopes.append_nil]
  exact (Scopes.map_id _).symm

theorem trans (h : s.Leads s₁) (h' : s₁.Leads s') : s.Leads s' := by
  obtain ⟨hfollows, g, ks, hclasses, hg⟩ := h
  obtain ⟨hfollows', g', ks', hclasses', hg'⟩ := h'
  refine ⟨hfollows.trans hfollows', g' ∘ g, ks.map (ClassConstraint.mapTy g') ++ ks', ?_, fun t ht => ?_, fun t ht A hA => ?_⟩
  · rw [hclasses', hclasses, Scopes.map_append, Scopes.map_map, Scopes.append_append]
    rfl
  · exact hg'.within _ (hg.within t ht)
  · exact (hg'.value _ (hg.within t ht) A hA).trans (hg.value t ht A (hfollows'.accepts hA))

end Leads

section Owned

theorem Owns.shaped_of_rowed {t : Ty} (ht : s.Owns t) (hrowed : s.Rowed) : t.Shaped := by
  obtain ⟨φ, hφ, hrows⟩ := hrowed
  exact hrows ▸ ht.shaped φ hφ

theorem owns_var {v : TypeVar} (hv : s.supply.Covers (.type v.id)) : s.Owns (.var v) where
  within := ⟨fun _ hr => absurd hr Ty.mem_rows_var, fun _ hw => Ty.mem_vars_var.mp hw ▸ hv⟩
  conforms _ _ _ hr := absurd hr Ty.mem_rows_var
  shaped _ _ := .var v

theorem owns_con (name : String) : s.Owns (.con name) where
  within := ⟨fun _ hr => absurd hr Ty.mem_rows_con, fun _ hw => absurd hw Ty.mem_vars_con⟩
  conforms _ _ _ hr := absurd hr Ty.mem_rows_con
  shaped _ _ := .con name

theorem owns_list {a : Ty} (h : s.Owns a) : s.Owns (.list a) where
  within := h.within
  conforms := h.conforms
  shaped φ hφ := .list (h.shaped φ hφ)

theorem owns_tuple {as : List Ty} (h : ∀ a ∈ as, s.Owns a) : s.Owns (.tuple as) where
  within := by
    refine ⟨fun r hr => ?_, fun v hv => ?_⟩
    · obtain ⟨a, ha, hr⟩ := Ty.mem_rows_tuple.mp hr
      exact (h a ha).within.1 r hr
    · obtain ⟨a, ha, hv⟩ := Ty.mem_vars_tuple.mp hv
      exact (h a ha).within.2 v hv
  conforms φ hφ r hr := by
    obtain ⟨a, ha, hr⟩ := Ty.mem_rows_tuple.mp hr
    exact (h a ha).conforms φ hφ r hr
  shaped φ hφ := .tuple fun a ha => (h a ha).shaped φ hφ

theorem owns_fn {ps : List Ty} {e : Effects} {r : Ty} (hps : ∀ p ∈ ps, s.Owns p) (he : s.OwnsEffects e) (hr : s.Owns r) :
    s.Owns (.fn ps e r) where
  within := by
    refine ⟨fun row hmem => ?_, fun v hmem => ?_⟩
    · rcases Ty.mem_rows_fn.mp hmem with ⟨p, hp, h⟩ | ⟨latent, rfl, h⟩ | h
      · exact (hps p hp).within.1 row h
      · exact he.within.1 row h
      · exact hr.within.1 row h
    · rcases Ty.mem_vars_fn.mp hmem with ⟨p, hp, h⟩ | ⟨latent, rfl, h⟩ | h
      · exact (hps p hp).within.2 v h
      · exact he.within.2 v h
      · exact hr.within.2 v h
  conforms φ hφ row hmem := by
    rcases Ty.mem_rows_fn.mp hmem with ⟨p, hp, h⟩ | ⟨latent, rfl, h⟩ | h
    · exact (hps p hp).conforms φ hφ row h
    · exact he.conforms φ hφ row h
    · exact hr.conforms φ hφ row h
  shaped φ hφ := by
    refine .fn (fun p hp => (hps p hp).shaped φ hφ) ?_ ?_ (hr.shaped φ hφ)
    · rintro row rfl
      exact he.kind φ hφ
    · rintro row rfl
      exact he.shaped φ hφ

theorem owns_record {r : Row} (hr : s.OwnsRow r) (hkind : r.kind = .recordRow) : s.Owns (.record r) where
  within := hr.within
  conforms := hr.conforms
  shaped φ hφ := .record hkind (hr.shaped φ hφ)

theorem inherited_owns (s : State) : Inherited s.Owns s.OwnsRow := by
  have h := (hereditary_within s.supply).toInherited.and ((Inherited.forall fun φ => .forall fun _ : φ ∈ s.layout =>
    inherited_conforms φ Nowhere).and (.forall fun φ => .forall fun _ : φ ∈ s.layout =>
      (hereditary_shaped φ.positional).toInherited))
  have howns (t : Ty) : s.Owns t ↔ t.Within s.supply ∧ (∀ φ, φ ∈ s.layout → t.Conforms φ Nowhere) ∧
      (∀ φ, φ ∈ s.layout → t.Shaped φ.positional) :=
    ⟨fun h => ⟨h.within, h.conforms, h.shaped⟩, fun h => ⟨h.1, h.2.1, h.2.2⟩⟩
  have hownsRow (r : Row) : s.OwnsRow r ↔ r.Within s.supply ∧
      (∀ φ, φ ∈ s.layout → ∀ r' ∈ r.rows, r'.Conforms φ Nowhere (r'.start φ)) ∧
      (∀ φ, φ ∈ s.layout → r.Shaped φ.positional) :=
    ⟨fun h => ⟨h.within, h.conforms, h.shaped⟩, fun h => ⟨h.1, h.2.1, h.2.2⟩⟩
  rw [funext fun t => propext (howns t), funext fun r => propext (hownsRow r)]
  exact h

end Owned

end State

end RowTyping
