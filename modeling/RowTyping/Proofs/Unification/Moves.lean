import RowTyping.Proofs.Binding
import RowTyping.Proofs.Unification.Goals

namespace RowTyping

open Relation

theorem hereditary_within (s : Supply) : Hereditary (Ty.Within s) (Row.Within s) :=
  hereditary_ordered.and (hereditary_vars s.Covers)

abbrev Goal.Within (s : Supply) (g : Goal) : Prop :=
  g.Both (Ty.Within s) (Row.Within s)

theorem Goal.Within.mono {s s' : Supply} (h : ∀ v, s.Covers v → s'.Covers v) {g : Goal} (hg : g.Within s) :
    g.Within s' := by
  cases g with
  | types => exact ⟨hg.1.mono h, hg.2.mono h⟩
  | rows => exact ⟨hg.1.mono h, hg.2.mono h⟩

namespace Unifier

structure Ready (u : Unifier) : Prop where
  chainless : u.subst.Chainless
  covers : ∀ v, u.subst.Binds v → u.supply.Covers v
  within : u.subst.Within u.supply

inductive Move : Unifier → Unifier → Prop
  | note {u : Unifier} (action : Action) (left right : Ty) : action.binds = false → Move u (u.record action left right)
  | skip {u : Unifier} : Move u u.skipRow
  | bindType {u : Unifier} (v : TypeVar) (t t₀ : Ty) : ¬ u.subst.Binds (.type v.id) → Var.type v.id ∉ t.vars →
      t = u.subst.apply t₀ → u.supply.Covers (.type v.id) → t.Within u.supply →
      Move u ((u.record (.bind v.id t) (.var v) t).bindType v.id t)
  | bindRow {u : Unifier} (r : RowVarId) (row : Row) : ¬ u.subst.Binds (.row r) → Var.row r ∉ row.vars →
      (∀ w, row.rest = some w → ¬ u.subst.Binds (.row w)) → u.supply.Covers (.row r) → row.Within u.supply →
      Move u ((u.record (.bindTail r row) (.record row) (.record row)).bindRow r row)

abbrev Moves : Unifier → Unifier → Prop :=
  ReflTransGen Move

variable {u u' : Unifier}

theorem Move.covers (h : Move u u') {v : Var} (hv : u.supply.Covers v) : u'.supply.Covers v := by
  cases h with
  | note => exact hv
  | skip => exact hv.freshRow
  | bindType => exact hv
  | bindRow => exact hv

theorem Move.errors (h : Move u u') : u'.errors = u.errors := by
  cases h <;> rfl

theorem Move.extends (h : Move u u') : u'.subst.Extends u.subst := by
  cases h with
  | note => exact .refl _
  | skip => exact .refl _
  | bindType v t t₀ hv => exact Substitution.extends_bindType hv
  | bindRow r row hr => exact Substitution.extends_bindRow hr

theorem Ready.enableTracing (hu : u.Ready) : u.enableTracing.Ready :=
  ⟨hu.chainless, hu.covers, hu.within⟩

theorem Ready.record (hu : u.Ready) (action : Action) (left right : Ty) : (u.record action left right).Ready :=
  ⟨hu.chainless, hu.covers, hu.within⟩

theorem Move.ready (h : Move u u') (hu : u.Ready) : u'.Ready := by
  cases h with
  | note action left right => exact hu.record action left right
  | skip =>
      have mono : ∀ v, u.supply.Covers v → u.skipRow.supply.Covers v := fun v hv => hv.freshRow
      exact ⟨hu.chainless, fun v hv => mono v (hu.covers v hv),
        fun id t ht => (hu.within.1 id t ht).mono mono, fun id r hr => (hu.within.2 id r hr).mono mono⟩
  | bindType v t t₀ hv hself happly hcovers ht =>
      refine ⟨hu.chainless.bindType hself ?_, ?_, Substitution.All.bindType hu.within ht⟩
      · rintro w rfl
        exact hu.chainless.unbound_of_apply happly.symm
      · intro x hx
        rcases Substitution.binds_bindType.mp hx with rfl | hx
        · exact hcovers
        · exact hu.covers x hx
  | bindRow r row hr hself hrest hcovers hrow =>
      refine ⟨hu.chainless.bindRow hself hrest, ?_, Substitution.All.bindRow hu.within hrow⟩
      intro x hx
      rcases Substitution.binds_bindRow.mp hx with rfl | hx
      · exact hcovers
      · exact hu.covers x hx

theorem Moves.covers (h : Moves u u') {v : Var} (hv : u.supply.Covers v) : u'.supply.Covers v := by
  induction h with
  | refl => exact hv
  | tail _ hmove ih => exact hmove.covers ih

theorem Moves.errors (h : Moves u u') : u'.errors = u.errors := by
  induction h with
  | refl => rfl
  | tail _ hmove ih => exact hmove.errors.trans ih

theorem Moves.extends (h : Moves u u') : u'.subst.Extends u.subst := by
  induction h with
  | refl => exact .refl _
  | tail _ hmove ih => exact hmove.extends.trans ih

theorem Moves.ready (h : Moves u u') (hu : u.Ready) : u'.Ready := by
  induction h with
  | refl => exact hu
  | tail _ hmove ih => exact hmove.ready ih

theorem BindsType.moves {v : TypeVar} {t t₀ : Ty} {verdict : Verdict} (h : BindsType u v t verdict u')
    (hv : ¬ u.subst.Binds (.type v.id)) (happly : t = u.subst.apply t₀) (hcovers : u.supply.Covers (.type v.id))
    (ht : t.Within u.supply) : Moves u u' := by
  cases h with
  | same => exact .refl
  | refused action hbinds => exact .single (.note action _ _ hbinds)
  | bound _ hself => exact .single (.bindType v t t₀ hv hself happly hcovers ht)

theorem BindsTail.moves {r : RowVarId} {row : Row} {verdict : Verdict} (h : BindsTail u r row verdict u')
    (hr : ¬ u.subst.Binds (.row r)) (hrest : ∀ w, row.rest = some w → ¬ u.subst.Binds (.row w))
    (hcovers : u.supply.Covers (.row r)) (hrow : row.Within u.supply) : Moves u u' := by
  cases h with
  | same => exact .refl
  | refused => exact .single (.note _ _ _ rfl)
  | bound hself => exact .single (.bindRow r row hr hself hrest hcovers hrow)

theorem isBound_eq_false {tail : Option RowVarId} :
    u.isBound tail = false ↔ ∀ r, tail = some r → ¬ u.subst.Binds (.row r) := by
  cases tail with
  | none => simp [isBound]
  | some r => simp [isBound, Substitution.not_binds_row]

theorem isBound_rest_eq_false (h : u.subst.Acyclic) (hsame : u'.subst = u.subst) (r : Row) :
    u'.isBound (u.subst.applyRow r).rest = false :=
  isBound_eq_false.mpr fun _ hw => hsame ▸ h.chainless.unbound_of_applyRow hw

theorem Ready.free_nextRow (hu : u.Ready) : ¬ u.subst.Binds (.row u.supply.nextRow) :=
  fun h => Nat.lt_irrefl _ (hu.covers _ h)

end Unifier

theorem Row.Ordered.only {r a : Row} (h : r.Ordered) (k : Kind) (rest : Option RowVarId) :
    Row.Ordered ⟨k, r.only a, rest⟩ := by
  obtain ⟨hasc, hfs⟩ := Row.ordered_iff.mp h
  exact Row.ordered_iff.mpr ⟨ascending_only hasc, fun f hf => hfs f (List.mem_of_mem_filter hf)⟩

theorem Row.Within.only {s : Supply} {r a : Row} (h : r.Within s) (k : Kind) {rest : Option RowVarId}
    (hrest : ∀ w, rest = some w → s.Covers (.row w)) : Row.Within s ⟨k, r.only a, rest⟩ := by
  refine ⟨h.1.only k rest, ?_⟩
  obtain ⟨k', gs, rest'⟩ := r
  intro v hv
  rcases mem_vars.mp hv with ⟨f, hf, hv⟩ | ⟨w, hw, rfl⟩
  · exact h.2 v (mem_vars.mpr (.inl ⟨f, List.mem_of_mem_filter hf, hv⟩))
  · exact hrest w hw

namespace Unifier

variable {u u' : Unifier}

theorem covers_rest {s : Supply} {r : Row} (h : r.Within s) {w : RowVarId} (hw : r.rest = some w) :
    s.Covers (.row w) := by
  obtain ⟨k, fs, rest⟩ := r
  exact h.2 _ (Row.mem_vars.mpr (.inr ⟨w, hw, rfl⟩))

theorem BindsTail.binds {r : RowVarId} {row : Row} {verdict : Verdict} (h : BindsTail u r row verdict u') {x : Var}
    (hx : u'.subst.Binds x) : x = .row r ∨ u.subst.Binds x := by
  cases h with
  | same => exact .inr hx
  | refused => exact .inr hx
  | bound => exact Substitution.binds_bindRow.mp hx

theorem SettlesTails.moves {e a : Row} {verdict : Verdict} (h : SettlesTails u e a verdict u') (hu : u.Ready)
    (he : e.Within u.supply) (ha : a.Within u.supply) (hfe : ∀ r, e.rest = some r → ¬ u.subst.Binds (.row r))
    (hfa : ∀ r, a.rest = some r → ¬ u.subst.Binds (.row r)) : Moves u u' := by
  cases h with
  | agree => exact .refl
  | labels => exact .single (.note _ _ _ rfl)
  | expected r _ _ hr _ _ hbind =>
      exact hbind.moves (hfe r hr) (by simp) (covers_rest he hr) (ha.only _ (by simp))
  | actual r _ _ _ hr _ hbind =>
      exact hbind.moves (hfa r hr) (by simp) (covers_rest ha hr) (he.only _ (by simp))
  | join r r' _ _ hr hr' _ _ _ hbind =>
      refine hbind.moves (hfe r hr) ?_ (covers_rest he hr) ⟨Row.ordered_iff.mpr ⟨List.Pairwise.nil, by simp⟩, ?_⟩
      · rintro w ⟨⟩
        exact hfa r' hr'
      · intro v hv
        rcases Row.mem_vars.mp hv with ⟨f, hf, _⟩ | ⟨w, hw, rfl⟩
        · cases hf
        · cases hw
          exact covers_rest ha hr'
  | shareRefused r r' _ _ hr hr' _ _ hbind =>
      refine .head .skip (.head (.note _ _ _ rfl) (hbind.moves (hfe r hr) ?_ ?_ ?_))
      · rintro w ⟨⟩
        exact hu.free_nextRow
      · exact (covers_rest he hr).freshRow
      · refine (ha.mono fun v hv => hv.freshRow).only _ ?_
        rintro w ⟨⟩
        exact Nat.lt_succ_self _
  | share r r' _ u₁ _ hr hr' hne _ hfirst hsecond =>
      have hfresh : ∀ w, u.supply.Covers (.row w) → w ≠ u.supply.nextRow := fun w hw => Nat.ne_of_lt hw
      have first : Moves u u₁ := by
        refine .head .skip (.head (.note _ _ _ rfl) (hfirst.moves (hfe r hr) ?_ ?_ ?_))
        · rintro w ⟨⟩
          exact hu.free_nextRow
        · exact (covers_rest he hr).freshRow
        · refine (ha.mono fun v hv => hv.freshRow).only _ ?_
          rintro w ⟨⟩
          exact Nat.lt_succ_self _
      have covered : u₁.supply.Covers (.row u.supply.nextRow) := by
        cases hfirst with
        | same hrest => exact absurd (Option.some.inj hrest).symm (hfresh r (covers_rest he hr))
        | bound => exact Nat.lt_succ_self _
      refine first.trans (hsecond.moves ?_ ?_ ?_ ?_)
      · intro hbound
        rcases hfirst.binds hbound with heq | hbound
        · exact hne (Var.row.inj heq).symm
        · exact hfa r' hr' hbound
      · rintro w ⟨⟩ hbound
        rcases hfirst.binds hbound with heq | hbound
        · exact hfresh r (covers_rest he hr) (Var.row.inj heq).symm
        · exact hu.free_nextRow hbound
      · exact Moves.covers first (covers_rest ha hr')
      · refine (he.mono fun v hv => Moves.covers first hv).only _ ?_
        rintro w ⟨⟩
        exact covered

namespace Ready

variable (hu : u.Ready)

include hu

theorem applyGoal_within {g : Goal} (hg : g.Within u.supply) : (u.applyGoal g).Within u.supply := by
  cases g with
  | types => exact ⟨hu.within.apply hg.1, hu.within.apply hg.2⟩
  | rows => exact ⟨hu.within.applyRow hg.1, hu.within.applyRow hg.2⟩

theorem parts_within {e a : Ty} {part : Part} {gs : List Goal} (hg : (Goal.types e a).Within u.supply)
    (hmeet : (u.subst.apply e).meet (u.subst.apply a) = .parts part gs) : ∀ g ∈ gs, g.Within u.supply :=
  (Ty.parts_of_meet hmeet).both (hereditary_within _).toInherited (hu.within.apply hg.1) (hu.within.apply hg.2)

theorem rows_within {e a : Ty} {r r' : Row} (hg : (Goal.types e a).Within u.supply)
    (hmeet : (u.subst.apply e).meet (u.subst.apply a) = .rows r r') : (Goal.rows r r').Within u.supply := by
  have he := hu.within.apply hg.1
  have ha := hu.within.apply hg.2
  obtain ⟨hx, hy⟩ := Ty.rows_of_meet hmeet
  rw [hx] at he
  rw [hy] at ha
  exact ⟨(hereditary_within _).record he, (hereditary_within _).record ha⟩

theorem commonGoals_within {e a : Row} (hg : (Goal.rows e a).Within u.supply) :
    ∀ g ∈ (u.subst.applyRow e).commonGoals (u.subst.applyRow a), g.Within u.supply :=
  Row.commonGoals_both (hereditary_within _).toInherited (hu.within.applyRow hg.1) (hu.within.applyRow hg.2)

theorem residual_within {e a : Row} (hg : (Goal.rows e a).Within u.supply) :
    (Goal.rows ((u.subst.applyRow e).residual (u.subst.applyRow a))
      ((u.subst.applyRow a).residual (u.subst.applyRow e))).Within u.supply :=
  ⟨(hereditary_within _).residual _ (hu.within.applyRow hg.1), (hereditary_within _).residual _ (hu.within.applyRow hg.2)⟩

end Ready

theorem Solves.moves {n : Nat} {gs : List Goal} {verdict : Verdict} (h : Solves n u gs verdict u') (hu : u.Ready)
    (hgs : ∀ g ∈ gs, g.Within u.supply) : Moves u u' := by
  induction h with
  | nil => exact .refl
  | cons _ _ ihhead ihrest =>
      rw [List.forall_mem_cons] at hgs
      have first := ihhead hu (List.forall_mem_singleton.mpr hgs.1)
      exact first.trans (ihrest (first.ready hu) fun g hg => (hgs.2 g hg).mono fun v => first.covers)
  | stop _ _ ih =>
      rw [List.forall_mem_cons] at hgs
      exact ih hu (List.forall_mem_singleton.mpr hgs.1)
  | exhausted => exact .refl
  | identical => exact .single (.note _ _ _ rfl)
  | @bind n u u' e a t v verdict _ hmeet hbind =>
      obtain ⟨he, ha⟩ := hu.applyGoal_within (List.forall_mem_singleton.mp hgs)
      rcases Ty.bind_of_meet hmeet with ⟨hx, rfl⟩ | ⟨hx, rfl⟩
      · exact hbind.moves (hu.chainless.unbound_of_apply hx) rfl ((hx ▸ he).2 _ (by simp)) ha
      · exact hbind.moves (hu.chainless.unbound_of_apply hx) rfl ((hx ▸ ha).2 _ (by simp)) he
  | parts _ hmeet _ ih =>
      exact .head (.note _ _ _ rfl) (ih (hu.record _ _ _) (hu.parts_within (List.forall_mem_singleton.mp hgs) hmeet))
  | rows _ hmeet _ ih =>
      exact ih hu (List.forall_mem_singleton.mpr (hu.rows_within (List.forall_mem_singleton.mp hgs) hmeet))
  | clash => exact .single (.note _ _ _ rfl)
  | kinds => exact .single (.note _ _ _ rfl)
  | equal => exact .refl
  | fields _ _ _ _ ih =>
      exact .head (.note _ _ _ rfl) (ih (hu.record _ _ _) (hu.commonGoals_within (List.forall_mem_singleton.mp hgs)))
  | restart _ _ _ _ _ ihfields ih =>
      have hg := List.forall_mem_singleton.mp hgs
      have fields := ihfields (hu.record _ _ _) (hu.commonGoals_within hg)
      have hrest := (hu.residual_within hg).mono fun v => fields.covers
      exact .head (.note _ _ _ rfl)
        (fields.trans (ih (fields.ready (hu.record _ _ _)) (List.forall_mem_singleton.mpr hrest)))
  | tails _ _ _ hbound htails ih =>
      have hg := List.forall_mem_singleton.mp hgs
      have fields := ih (hu.record _ _ _) (hu.commonGoals_within hg)
      obtain ⟨he, ha⟩ := (hu.applyGoal_within hg).mono fun v => fields.covers
      obtain ⟨hfe, hfa⟩ := Bool.or_eq_false_iff.mp hbound
      exact .head (.note _ _ _ rfl) (fields.trans (htails.moves (fields.ready (hu.record _ _ _)) he ha
        (isBound_eq_false.mp hfe) (isBound_eq_false.mp hfa)))

theorem Solves.acyclic {n : Nat} {gs : List Goal} {verdict : Verdict} (h : Solves n u gs verdict u') (hu : u.Ready)
    (hgs : ∀ g ∈ gs, g.Within u.supply) (hacyclic : u'.subst.Acyclic) : u.subst.Acyclic :=
  (h.moves hu hgs).extends.acyclic hacyclic

end Unifier

end RowTyping
