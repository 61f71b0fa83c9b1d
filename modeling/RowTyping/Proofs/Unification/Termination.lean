import Mathlib.Algebra.Group.Nat.Defs
import RowTyping.Proofs.Growth
import RowTyping.Proofs.Unification.Cycles

namespace RowTyping

namespace Substitution

variable {s s₁ s' : Substitution} {V V₁ V' : Finset Var} {H k l : Nat}

structure Grows (s s' : Substitution) (V V' : Finset Var) (H k : Nat) : Prop where
  card : V'.card + k ≤ V.card
  same : k = 0 → s' = s
  bounded : ∀ {t : Ty} {m m' : Nat}, t.Ordered → s.Bounded V m t → m + 4 ^ k * H ≤ m' + H → s'.Bounded V' m' t

theorem Grows.refl (s : Substitution) (V : Finset Var) (H : Nat) : Grows s s V V H 0 where
  card := Nat.le_refl _
  same _ := rfl
  bounded _ h hm := h.mono (Finset.Subset.refl V) (by omega)

theorem le_pow_mul (k H : Nat) : H ≤ 4 ^ k * H :=
  Nat.le_mul_of_pos_left H (Nat.pow_pos (by decide))

theorem Grows.trans (h : Grows s s₁ V V₁ H k) (h' : Grows s₁ s' V₁ V' (4 ^ k * H) l) : Grows s s' V V' H (k + l) where
  card := by
    have := h.card
    have := h'.card
    omega
  same hkl := by
    rw [h'.same (by omega), h.same (by omega)]
  bounded {t m m'} ht hb hm := by
    have hH := le_pow_mul k H
    have hpow : 4 ^ (k + l) * H = 4 ^ l * (4 ^ k * H) := by rw [Nat.pow_add, Nat.mul_comm (4 ^ k), Nat.mul_assoc]
    exact h'.bounded (m := m + 4 ^ k * H - H) ht (h.bounded ht hb (by omega)) (by omega)

theorem Grows.succ (h : Grows s s' V V' H k) : Grows s s' V V' (H + 1) k where
  card := h.card
  same := h.same
  bounded {t m m'} ht hb hm := by
    have hone := le_pow_mul k 1
    rw [Nat.mul_add] at hm
    exact h.bounded ht hb (by omega)

theorem Grows.boundedRow (h : Grows s s' V V' H k) {r : Row} (hr : r.Ordered) {m m' : Nat} (hb : s.BoundedRow V m r)
    (hm : m + 4 ^ k * H ≤ m' + H) : s'.BoundedRow V' m' r :=
  bounded_record.mp (h.bounded (t := .record r) hr (bounded_record.mpr hb) (by omega))

end Substitution

namespace Goal

def Bounded (s : Substitution) (V : Finset Var) (H : Nat) (g : Goal) : Prop :=
  g.Both (s.Bounded V H) (s.BoundedRow V H)

variable {s s' : Substitution} {V V' : Finset Var} {H k : Nat} {g : Goal}

theorem Bounded.grows (h : g.Bounded s V H) {sup : Supply} (hg : g.Within sup) (hgrows : s.Grows s' V V' H k) :
    g.Bounded s' V' (4 ^ k * H) := by
  cases g with
  | types => exact ⟨hgrows.bounded hg.1.1 h.1 (by omega), hgrows.bounded hg.2.1 h.2 (by omega)⟩
  | rows => exact ⟨hgrows.boundedRow hg.1.1 h.1 (by omega), hgrows.boundedRow hg.2.1 h.2 (by omega)⟩

theorem bounded_of_free (hfree : g.Both (fun t => ∀ v ∈ t.vars, v ∈ V ∧ ¬ s.Binds v) fun r => ∀ v ∈ r.vars, v ∈ V ∧ ¬ s.Binds v)
    (hheight : g.height ≤ H) : g.Bounded s V H := by
  cases g with
  | types e a =>
      have := Nat.max_le.mp hheight
      constructor
      · rw [Substitution.Bounded, Substitution.apply_of_free fun v hv => (hfree.1 v hv).2]
        exact ⟨fun v hv => (hfree.1 v hv).1, this.1⟩
      · rw [Substitution.Bounded, Substitution.apply_of_free fun v hv => (hfree.2 v hv).2]
        exact ⟨fun v hv => (hfree.2 v hv).1, this.2⟩
  | rows e a =>
      have := Nat.max_le.mp hheight
      constructor
      · rw [Substitution.BoundedRow, Substitution.applyRow_of_free fun v hv => (hfree.1 v hv).2]
        exact ⟨fun v hv => (hfree.1 v hv).1, this.1⟩
      · rw [Substitution.BoundedRow, Substitution.applyRow_of_free fun v hv => (hfree.2 v hv).2]
        exact ⟨fun v hv => (hfree.2 v hv).1, this.2⟩

end Goal

section Depth

variable {H k c c' n : Nat}

theorem depth_step (h : (H + 1 + 1) * 4 ^ c ≤ n + 1) : (H + 1) * 4 ^ c ≤ n := by
  have hpos : 0 < 4 ^ c := Nat.pow_pos (by decide)
  rw [Nat.add_one_mul] at h
  omega

theorem depth_grown (hc : c' + k ≤ c) : (4 ^ k * H + 4 ^ k) * 4 ^ c' ≤ (H + 1) * 4 ^ c := by
  have hpow : 4 ^ k * 4 ^ c' ≤ 4 ^ c := by
    rw [← Nat.pow_add, Nat.add_comm]
    exact Nat.pow_le_pow_right (by decide) hc
  calc (4 ^ k * H + 4 ^ k) * 4 ^ c' = (H + 1) * (4 ^ k * 4 ^ c') := by
        rw [← Nat.mul_add_one, Nat.mul_comm (4 ^ k), Nat.mul_assoc]
    _ ≤ (H + 1) * 4 ^ c := Nat.mul_le_mul_left _ hpow

theorem depth_after (hc : c' + k ≤ c) (h : (H + 1) * 4 ^ c ≤ n) : (4 ^ k * H + 1) * 4 ^ c' ≤ n := by
  refine Nat.le_trans (Nat.le_trans (Nat.mul_le_mul_right _ ?_) (depth_grown hc)) h
  exact Nat.add_le_add_left (Nat.pow_pos (by decide)) _

theorem depth_after_binding (hk : k ≠ 0) (hc : c' + k ≤ c) (h : (H + 1) * 4 ^ c ≤ n + 1) : (4 ^ k * H + 1) * 4 ^ c' ≤ n := by
  have hpos : 0 < 4 ^ c' := Nat.pow_pos (by decide)
  have hfour : 4 ≤ 4 ^ k := Nat.le_self_pow hk 4
  have hgrown := Nat.le_trans (depth_grown hc) h
  have hmore : (4 ^ k * H + 1 + 1) * 4 ^ c' ≤ (4 ^ k * H + 4 ^ k) * 4 ^ c' := Nat.mul_le_mul_right _ (by omega)
  rw [Nat.add_one_mul (4 ^ k * H + 1)] at hmore
  omega

end Depth

namespace Substitution

variable {s : Substitution} {V : Finset Var} {c : Nat}

theorem grows_bindRow {r : RowVarId} {row : Row} (hacyclic : (s.bindRow r row).Acyclic) (hs : s.Ordered)
    (hr : ¬ s.Binds (.row r)) (hrow : row.Ordered) (hmem : Var.row r ∈ V) (hbounded : s.BoundedRow V (c + 1) row) :
    Grows s (s.bindRow r row) V (V.erase (.row r)) (c + 1) 1 where
  card := Nat.le_of_eq (Finset.card_erase_add_one hmem)
  same h := by cases h
  bounded ht hb hm := (hb.bindRow ht hacyclic hs hr hrow hbounded).mono (Finset.Subset.refl _) (by omega)

theorem Acyclic.boundedRow_only (h : s.Acyclic) {r a : Row} (hb : s.BoundedRow V (c + 1) r)
    (hr : ∀ w, r.rest = some w → ¬ s.Binds (.row w)) (k : Kind) (rest : Option RowVarId)
    (hrest : ∀ w, rest = some w → ¬ s.Binds (.row w) ∧ Var.row w ∈ V) : s.BoundedRow V (c + 1) ⟨k, r.only a, rest⟩ := by
  rw [h.boundedRow_iff fun w hw => (hrest w hw).1]
  exact ⟨fun f hf => ((h.boundedRow_iff hr).mp hb).1 f (List.mem_of_mem_filter hf), fun w hw => (hrest w hw).2⟩

end Substitution

namespace Unifier

variable {u u' : Unifier} {V : Finset Var} {H c n : Nat} {verdict : Verdict}

theorem BindsType.not_exhausted {v : TypeVar} {t : Ty} (h : BindsType u v t verdict u') : verdict ≠ .exhausted := by
  cases h <;> exact nofun

theorem BindsTail.not_exhausted {r : RowVarId} {row : Row} (h : BindsTail u r row verdict u') :
    verdict ≠ .exhausted := by
  cases h <;> exact nofun

theorem SettlesTails.not_exhausted {e a : Row} (h : SettlesTails u e a verdict u') : verdict ≠ .exhausted := by
  cases h with
  | agree => exact nofun
  | labels => exact nofun
  | expected _ _ _ _ _ _ hbind => exact hbind.not_exhausted
  | actual _ _ _ _ _ _ hbind => exact hbind.not_exhausted
  | join _ _ _ _ _ _ _ _ _ hbind => exact hbind.not_exhausted
  | shareRefused _ _ _ _ _ _ _ _ hbind => exact hbind.not_exhausted
  | share _ _ _ _ _ _ _ _ _ _ hbind => exact hbind.not_exhausted

theorem BindsTail.subst_eq {r : RowVarId} {row : Row} (h : BindsTail u r row .solved u') (hne : row.rest ≠ some r) :
    u'.subst = u.subst.bindRow r row := by
  cases h with
  | same hrest => exact absurd hrest hne
  | bound => rfl

theorem BindsTail.grows {r : RowVarId} {row : Row} (h : BindsTail u r row .solved u') (hne : row.rest ≠ some r)
    (hacyclic : u'.subst.Acyclic) (hs : u.subst.Ordered) (hr : ¬ u.subst.Binds (.row r)) (hrow : row.Ordered)
    (hmem : Var.row r ∈ V) (hbounded : u.subst.BoundedRow V (c + 1) row) :
    u.subst.Grows u'.subst V (V.erase (.row r)) (c + 1) 1 := by
  rw [h.subst_eq hne] at hacyclic ⊢
  exact Substitution.grows_bindRow hacyclic hs hr hrow hmem hbounded

theorem SettlesTails.grows {e a : Row} (h : SettlesTails u e a .solved u') (hu : u.Ready) (he : e.Within u.supply)
    (ha : a.Within u.supply) (hfe : ∀ r, e.rest = some r → ¬ u.subst.Binds (.row r))
    (hfa : ∀ r, a.rest = some r → ¬ u.subst.Binds (.row r)) (hacyclic : u'.subst.Acyclic)
    (hbe : u.subst.BoundedRow V (c + 1) e) (hba : u.subst.BoundedRow V (c + 1) a) :
    ∃ V' k, u.subst.Grows u'.subst V V' (c + 1) k := by
  have hs := hu.within.ordered
  have hu₀ : u.subst.Acyclic := (h.moves hu he ha hfe hfa).extends.acyclic hacyclic
  have hVe := ((hu₀.boundedRow_iff hfe).mp hbe).2
  have hVa := ((hu₀.boundedRow_iff hfa).mp hba).2
  cases h with
  | agree => exact ⟨V, 0, .refl _ _ _⟩
  | expected r _ _ hr _ _ hbind =>
      exact ⟨_, 1, hbind.grows nofun hacyclic hs (hfe r hr) (ha.1.only _ _) (hVe r hr)
        (hu₀.boundedRow_only hba hfa _ none nofun)⟩
  | actual r _ _ _ hr _ hbind =>
      exact ⟨_, 1, hbind.grows nofun hacyclic hs (hfa r hr) (he.1.only _ _) (hVa r hr)
        (hu₀.boundedRow_only hbe hfe _ none nofun)⟩
  | join r r' _ _ hr hr' hne _ hax hbind =>
      rw [← hax] at hbind
      refine ⟨_, 1, hbind.grows (fun heq => hne (Option.some.inj heq).symm) hacyclic hs (hfe r hr) (ha.1.only _ _)
        (hVe r hr) (hu₀.boundedRow_only hba hfa _ _ ?_)⟩
      rintro w ⟨⟩
      exact ⟨hfa r' hr', hVa r' hr'⟩
  | shareRefused _ _ _ _ _ _ _ _ _ hsolved => exact absurd rfl hsolved
  | share r r' _ u₁ _ hr hr' hne _ hfirst hsecond =>
      have hcovers := covers_rest he hr
      have hcovers' := covers_rest ha hr'
      have hfresh : r ≠ u.supply.nextRow := Nat.ne_of_lt hcovers
      have hfresh' : r' ≠ u.supply.nextRow := Nat.ne_of_lt hcovers'
      have hnext : ¬ u.subst.Binds (.row u.supply.nextRow) := hu.free_nextRow
      have hfirst := hfirst.subst_eq fun heq => hfresh (Option.some.inj heq).symm
      have hsecond := hsecond.subst_eq fun heq => hfresh' (Option.some.inj heq).symm
      simp only [record_subst, skipRow_subst] at hfirst
      have hr'₁ : ¬ u₁.subst.Binds (.row r') := by
        rw [hfirst]
        exact fun hb => (Substitution.binds_bindRow.mp hb).elim (fun heq => hne (Var.row.inj heq).symm) (hfa r' hr')
      have hnext₁ : ¬ u₁.subst.Binds (.row u.supply.nextRow) := by
        rw [hfirst]
        exact fun hb => (Substitution.binds_bindRow.mp hb).elim (fun heq => hfresh (Var.row.inj heq).symm) hnext
      rw [hsecond] at hacyclic ⊢
      have hu₁ := (Substitution.extends_bindRow hr'₁).acyclic hacyclic
      -- The fresh tail comes in and the two old ones go out.
      let W := insert (Var.row u.supply.nextRow) V
      have hW : V ⊆ W := Finset.subset_insert _ _
      have hrW : Var.row r ∈ W := hW (hVe r hr)
      have hr'W : Var.row r' ∈ W.erase (.row r) :=
        Finset.mem_erase.mpr ⟨fun heq => hne (Var.row.inj heq).symm, hW (hVa r' hr')⟩
      have hnextW : Var.row u.supply.nextRow ∈ W.erase (.row r) :=
        Finset.mem_erase.mpr ⟨fun heq => hfresh (Var.row.inj heq).symm, Finset.mem_insert_self _ _⟩
      have hcard : ((W.erase (.row r)).erase (.row r')).card + 1 ≤ V.card := by
        have := Finset.card_erase_add_one hrW
        have := Finset.card_erase_add_one hr'W
        have := Finset.card_insert_le (Var.row u.supply.nextRow) V
        change W.card ≤ V.card + 1 at this
        omega
      have hadded : u.subst.BoundedRow W (c + 1) ⟨e.kind, a.only e, some u.supply.nextRow⟩ := by
        refine (hu₀.boundedRow_only ⟨fun v hv => hW (hba.1 v hv), hba.2⟩ hfa _ (some u.supply.nextRow) ?_)
        rintro w ⟨⟩
        exact ⟨hnext, Finset.mem_insert_self _ _⟩
      have step : ∀ {t : Ty} {m : Nat}, t.Ordered → u.subst.Bounded V m t → u₁.subst.Bounded (W.erase (.row r)) (m + c) t := by
        intro t m ht hb
        rw [hfirst] at hu₁ ⊢
        exact (hb.mono hW (Nat.le_refl m)).bindRow ht hu₁ hs (hfe r hr) (ha.1.only _ _) hadded
      have hadded' : u₁.subst.BoundedRow (W.erase (.row r)) (c + c + 1) ⟨a.kind, e.only a, some u.supply.nextRow⟩ := by
        refine (hu₁.boundedRow_iff (by rintro w ⟨⟩; exact hnext₁)).mpr ⟨fun f hf => ?_, by rintro w ⟨⟩; exact hnextW⟩
        have hmem := List.mem_of_mem_filter hf
        exact step ((Row.ordered_iff.mp he.1).2 f hmem) (((hu₀.boundedRow_iff hfe).mp hbe).1 f hmem)
      have hs₁ : u₁.subst.Ordered := by
        rw [hfirst]
        exact Substitution.All.bindRow hs (ha.1.only _ _)
      refine ⟨_, 1, hcard, nofun, fun ht hb hm => ?_⟩
      exact ((step ht hb).bindRow ht hacyclic hs₁ hr'₁ (he.1.only _ _) hadded').mono (Finset.Subset.refl _) (by omega)

theorem bounded_pos {g : Goal} (h : g.Bounded u.subst V H) : ∃ H₀, H = H₀ + 1 := by
  have hpos : 0 < H := by
    cases g with
    | types e a => exact Nat.lt_of_lt_of_le (Ty.height_pos _) h.1.2
    | rows e a =>
        have := h.1.2
        rw [Row.height_eq] at this
        omega
  exact ⟨H - 1, by omega⟩

section Applied

variable {e a : Ty} {r r' : Row} (hacyclic : u.subst.Acyclic)

include hacyclic

theorem bounded_parts {part : Part} {gs : List Goal} (hb : (Goal.types e a).Bounded u.subst V (H + 1))
    (hmeet : (u.subst.apply e).meet (u.subst.apply a) = .parts part gs) : ∀ g ∈ gs, g.Bounded u.subst V H := by
  intro g hg
  have hparts := Ty.parts_of_meet hmeet
  have hlt := hparts.height_lt g hg
  have hmax := Nat.max_le.mpr ⟨hb.1.2, hb.2.2⟩
  refine Goal.bounded_of_free (hparts.both (hereditary_vars fun v => v ∈ V ∧ ¬ u.subst.Binds v).toInherited ?_ ?_ g hg) (by omega)
  · exact fun v hv => ⟨hb.1.1 v hv, hacyclic.free_of_apply hv⟩
  · exact fun v hv => ⟨hb.2.1 v hv, hacyclic.free_of_apply hv⟩

theorem bounded_rows (hb : (Goal.types e a).Bounded u.subst V (H + 1))
    (hmeet : (u.subst.apply e).meet (u.subst.apply a) = .rows r r') : (Goal.rows r r').Bounded u.subst V H := by
  obtain ⟨hx, hy⟩ := Ty.rows_of_meet hmeet
  have hfree : ∀ v, v ∈ (u.subst.apply e).vars ∨ v ∈ (u.subst.apply a).vars → v ∈ V ∧ ¬ u.subst.Binds v := by
    rintro v (hv | hv)
    · exact ⟨hb.1.1 v hv, hacyclic.free_of_apply hv⟩
    · exact ⟨hb.2.1 v hv, hacyclic.free_of_apply hv⟩
  have he := hb.1.2
  have ha := hb.2.2
  rw [hx, hy] at hfree
  rw [hx] at he
  rw [hy] at ha
  refine Goal.bounded_of_free ⟨fun v hv => hfree v (.inl hv), fun v hv => hfree v (.inr hv)⟩ (Nat.max_le.mpr ⟨?_, ?_⟩)
  · exact Nat.le_of_succ_le_succ he
  · exact Nat.le_of_succ_le_succ ha

theorem bounded_applied (hb : u.subst.BoundedRow V H r) : u.subst.BoundedRow V H (u.subst.applyRow r) := by
  rw [Substitution.BoundedRow, Substitution.applyRow_of_free fun v hv => hacyclic.free_of_applyRow hv]
  exact hb

theorem bounded_commonGoals (hb : (Goal.rows r r').Bounded u.subst V (H + 1)) :
    ∀ g ∈ (u.subst.applyRow r).commonGoals (u.subst.applyRow r'), g.Bounded u.subst V H := by
  intro g hg
  have hlt := Row.height_lt_of_commonGoals hg
  have hmax := Nat.max_le.mpr ⟨hb.1.2, hb.2.2⟩
  refine Goal.bounded_of_free (Row.commonGoals_both (hereditary_vars fun v => v ∈ V ∧ ¬ u.subst.Binds v).toInherited ?_ ?_ g hg)
    (by omega)
  · exact fun v hv => ⟨hb.1.1 v hv, hacyclic.free_of_applyRow hv⟩
  · exact fun v hv => ⟨hb.2.1 v hv, hacyclic.free_of_applyRow hv⟩

theorem bounded_residual (hb : (Goal.rows r r').Bounded u.subst V (H + 1)) :
    (Goal.rows ((u.subst.applyRow r).residual (u.subst.applyRow r'))
      ((u.subst.applyRow r').residual (u.subst.applyRow r))).Bounded u.subst V (H + 1) := by
  have only {x : Row} (hx : u.subst.BoundedRow V (H + 1) x) (y : Row) :
      u.subst.BoundedRow V (H + 1) ((u.subst.applyRow x).residual y) := by
    have hfree : ∀ w, (u.subst.applyRow x).rest = some w → ¬ u.subst.Binds (.row w) := fun _ hw =>
      hacyclic.chainless.unbound_of_applyRow hw
    have hx := bounded_applied hacyclic hx
    exact hacyclic.boundedRow_only hx hfree _ _ fun w hw => ⟨hfree w hw, ((hacyclic.boundedRow_iff hfree).mp hx).2 w hw⟩
  exact ⟨only hb.1 _, only hb.2 _⟩

end Applied

theorem BindsType.grows {v : TypeVar} {t : Ty} (h : BindsType u v t .solved u') (hacyclic : u.subst.Acyclic)
    (hs : u.subst.Ordered) (hv : ¬ u.subst.Binds (.type v.id)) (ht : t.Ordered)
    (hfree : ∀ w ∈ t.vars, w ∈ V ∧ ¬ u.subst.Binds w) (hmem : Var.type v.id ∈ V) (hheight : t.height ≤ H + 1) :
    ∃ V' k, u.subst.Grows u'.subst V V' (H + 1) k := by
  cases h with
  | same => exact ⟨V, 0, .refl _ _ _⟩
  | bound _ hself =>
      refine ⟨_, 1, Nat.le_of_eq (Finset.card_erase_add_one hmem), nofun, fun hx hb hm => ?_⟩
      exact (hb.bindType hx hacyclic hs hv ht hself (fun w hw => (hfree w hw).2) (fun w hw => (hfree w hw).1)
        hheight).mono (Finset.Subset.refl _) (by omega)

-- What is left of two rows is taken up again only after a binding, so that fewer variables remain then.
theorem Solves.grows {gs : List Goal} (h : Solves n u gs verdict u') (hu : u.Ready)
    (hgs : ∀ g ∈ gs, g.Within u.supply) (hacyclic : u'.subst.Acyclic) (hb : ∀ g ∈ gs, g.Bounded u.subst V H)
    (hn : (H + 1) * 4 ^ V.card ≤ n) :
    verdict ≠ .exhausted ∧ (verdict = .solved → ∃ V' k, u.subst.Grows u'.subst V V' H k) := by
  induction h generalizing V H with
  | nil => exact ⟨nofun, fun _ => ⟨V, 0, .refl _ _ _⟩⟩
  | cons hhead hrest ihhead ihrest =>
      rw [List.forall_mem_cons] at hgs hb
      have hfirst := List.forall_mem_singleton.mpr hgs.1
      have first := hhead.moves hu hfirst
      have hgs' := fun g hg => (hgs.2 g hg).mono fun v => first.covers
      have hacyclic₁ := hrest.acyclic (first.ready hu) hgs' hacyclic
      obtain ⟨V₁, k, hgrows⟩ := (ihhead hu hfirst hacyclic₁ (List.forall_mem_singleton.mpr hb.1) hn).2 rfl
      have hlater := ihrest (first.ready hu) hgs' hacyclic (fun g hg => (hb.2 g hg).grows (hgs.2 g hg) hgrows)
        (depth_after hgrows.card hn)
      refine ⟨hlater.1, fun hsolved => ?_⟩
      obtain ⟨V', l, hgrows'⟩ := hlater.2 hsolved
      exact ⟨V', k + l, hgrows.trans hgrows'⟩
  | stop _ hne ih =>
      rw [List.forall_mem_cons] at hgs hb
      refine ⟨?_, fun hsolved => absurd hsolved hne⟩
      exact (ih hu (List.forall_mem_singleton.mpr hgs.1) hacyclic (List.forall_mem_singleton.mpr hb.1) hn).1
  | exhausted =>
      have hpos : 0 < (H + 1) * 4 ^ V.card := Nat.mul_pos (Nat.succ_pos H) (Nat.pow_pos (by decide))
      omega
  | identical => exact ⟨nofun, fun _ => ⟨V, 0, .refl _ _ _⟩⟩
  | @bind n u u' e a t v verdict hne hmeet hbind =>
      have hgoal := List.forall_mem_singleton.mp hb
      obtain ⟨H, rfl⟩ := bounded_pos hgoal
      obtain ⟨he, ha⟩ := hu.applyGoal_within (List.forall_mem_singleton.mp hgs)
      have hu₀ := (Solves.bind (n := n) hne hmeet hbind).acyclic hu hgs hacyclic
      refine ⟨hbind.not_exhausted, fun hsolved => ?_⟩
      subst hsolved
      rcases Ty.bind_of_meet hmeet with ⟨hx, rfl⟩ | ⟨hx, rfl⟩
      · exact hbind.grows hu₀ hu.within.ordered (hu.chainless.unbound_of_apply hx) ha.1
          (fun w hw => ⟨hgoal.2.1 w hw, hu₀.free_of_apply hw⟩) (hgoal.1.1 _ (by simp [hx])) hgoal.2.2
      · exact hbind.grows hu₀ hu.within.ordered (hu.chainless.unbound_of_apply hx) he.1
          (fun w hw => ⟨hgoal.1.1 w hw, hu₀.free_of_apply hw⟩) (hgoal.2.1 _ (by simp [hx])) hgoal.1.2
  | parts hne hmeet hparts ih =>
      have hgoal := List.forall_mem_singleton.mp hb
      obtain ⟨H, rfl⟩ := bounded_pos hgoal
      have hu₀ := (Solves.parts hne hmeet hparts).acyclic hu hgs hacyclic
      have hrun := ih (hu.record _ _ _) (hu.parts_within (List.forall_mem_singleton.mp hgs) hmeet) hacyclic
        (bounded_parts hu₀ hgoal hmeet) (depth_step hn)
      refine ⟨hrun.1, fun hsolved => ?_⟩
      obtain ⟨V', k, hgrows⟩ := hrun.2 hsolved
      exact ⟨V', k, hgrows.succ⟩
  | rows hne hmeet hrows ih =>
      have hgoal := List.forall_mem_singleton.mp hb
      obtain ⟨H, rfl⟩ := bounded_pos hgoal
      have hu₀ := (Solves.rows hne hmeet hrows).acyclic hu hgs hacyclic
      have hwithin := hu.rows_within (List.forall_mem_singleton.mp hgs) hmeet
      have hrun := ih hu (List.forall_mem_singleton.mpr hwithin) hacyclic
        (List.forall_mem_singleton.mpr (bounded_rows hu₀ hgoal hmeet)) (depth_step hn)
      refine ⟨hrun.1, fun hsolved => ?_⟩
      obtain ⟨V', k, hgrows⟩ := hrun.2 hsolved
      exact ⟨V', k, hgrows.succ⟩
  | clash => exact ⟨nofun, nofun⟩
  | kinds => exact ⟨nofun, nofun⟩
  | equal => exact ⟨nofun, fun _ => ⟨V, 0, .refl _ _ _⟩⟩
  | fields hkind hne hfields hstop ih =>
      have hgoal := List.forall_mem_singleton.mp hb
      obtain ⟨H, rfl⟩ := bounded_pos hgoal
      have hu₀ := (Solves.fields hkind hne hfields hstop).acyclic hu hgs hacyclic
      have hwithin := hu.commonGoals_within (List.forall_mem_singleton.mp hgs)
      have hrun := ih (hu.record _ _ _) hwithin hacyclic (bounded_commonGoals hu₀ hgoal) (depth_step hn)
      exact ⟨hrun.1, fun hsolved => absurd hsolved hstop⟩
  | @restart n u u₁ u' e a verdict hkind hne hfields hbound hrest ihfields ih =>
      have hg := List.forall_mem_singleton.mp hgs
      have hgoal := List.forall_mem_singleton.mp hb
      obtain ⟨H, rfl⟩ := bounded_pos hgoal
      have hwithin := hu.commonGoals_within hg
      have moves := hfields.moves (hu.record _ _ _) hwithin
      have hresidual := hu.residual_within hg
      have hresidual' := List.forall_mem_singleton.mpr (hresidual.mono fun v => moves.covers)
      have hacyclic₁ := hrest.acyclic (moves.ready (hu.record _ _ _)) hresidual' hacyclic
      have hu₀ : u.subst.Acyclic := moves.extends.acyclic hacyclic₁
      obtain ⟨V₁, k, hgrows⟩ := (ihfields (hu.record _ _ _) hwithin hacyclic₁ (bounded_commonGoals hu₀ hgoal)
        (depth_step hn)).2 rfl
      have hk : k ≠ 0 := by
        intro hk
        have hsame := hgrows.same hk
        rw [isBound_rest_eq_false hu₀ hsame, isBound_rest_eq_false hu₀ hsame] at hbound
        cases hbound
      have hrun := ih (moves.ready (hu.record _ _ _)) hresidual' hacyclic
        (List.forall_mem_singleton.mpr ((bounded_residual hu₀ hgoal).grows hresidual hgrows.succ))
        (depth_after_binding hk hgrows.card hn)
      refine ⟨hrun.1, fun hsolved => ?_⟩
      obtain ⟨V', l, hgrows'⟩ := hrun.2 hsolved
      exact ⟨V', k + l, hgrows.succ.trans hgrows'⟩
  | @tails n u u₁ u' e a verdict hkind hne hfields hbound htails ih =>
      have hg := List.forall_mem_singleton.mp hgs
      have hgoal := List.forall_mem_singleton.mp hb
      obtain ⟨H, rfl⟩ := bounded_pos hgoal
      have hwithin := hu.commonGoals_within hg
      have moves := hfields.moves (hu.record _ _ _) hwithin
      obtain ⟨he, ha⟩ := (hu.applyGoal_within hg).mono fun v => moves.covers
      obtain ⟨hfe, hfa⟩ := Bool.or_eq_false_iff.mp hbound
      have hfe := isBound_eq_false.mp hfe
      have hfa := isBound_eq_false.mp hfa
      have hready := moves.ready (hu.record _ _ _)
      have hacyclic₁ := (htails.moves hready he ha hfe hfa).extends.acyclic hacyclic
      have hu₀ : u.subst.Acyclic := moves.extends.acyclic hacyclic₁
      refine ⟨htails.not_exhausted, fun hsolved => ?_⟩
      subst hsolved
      obtain ⟨V₁, k, hgrows⟩ := (ih (hu.record _ _ _) hwithin hacyclic₁ (bounded_commonGoals hu₀ hgoal)
        (depth_step hn)).2 rfl
      have happlied : (Goal.rows (u.subst.applyRow e) (u.subst.applyRow a)).Bounded u.subst V (H + 1) :=
        ⟨bounded_applied hu₀ hgoal.1, bounded_applied hu₀ hgoal.2⟩
      have happlied₁ := happlied.grows (hu.applyGoal_within hg) hgrows.succ
      obtain ⟨c, hc⟩ := bounded_pos happlied₁
      rw [hc] at happlied₁
      obtain ⟨V', l, hgrows'⟩ := htails.grows hready he ha hfe hfa hacyclic happlied₁.1 happlied₁.2
      rw [← hc] at hgrows'
      exact ⟨V', k + l, hgrows.succ.trans hgrows'⟩

theorem bounded_depth (u : Unifier) (g : Goal) :
    g.Bounded u.subst ((u.applyGoal g).occurrences.map Occurrence.var).toFinset (u.applyGoal g).height := by
  have hmem {o : Occurrence} (ho : o ∈ (u.applyGoal g).occurrences) :
      o.var ∈ ((u.applyGoal g).occurrences.map Occurrence.var).toFinset :=
    List.mem_toFinset.mpr (List.mem_map_of_mem ho)
  cases g with
  | types e a =>
      refine ⟨⟨fun v hv => ?_, Nat.le_max_left _ _⟩, ⟨fun v hv => ?_, Nat.le_max_right _ _⟩⟩
      · obtain ⟨o, ho, rfl⟩ := Ty.mem_vars_iff.mp hv
        exact hmem (List.mem_append_left _ ho)
      · obtain ⟨o, ho, rfl⟩ := Ty.mem_vars_iff.mp hv
        exact hmem (List.mem_append_right _ ho)
  | rows e a =>
      refine ⟨⟨fun v hv => ?_, Nat.le_max_left _ _⟩, ⟨fun v hv => ?_, Nat.le_max_right _ _⟩⟩
      · obtain ⟨o, ho, rfl⟩ := Row.mem_vars_iff.mp hv
        exact hmem (List.mem_append_left _ ho)
      · obtain ⟨o, ho, rfl⟩ := Row.mem_vars_iff.mp hv
        exact hmem (List.mem_append_right _ ho)

theorem run_not_exhausted (hu : u.Ready) {g : Goal} (hg : g.Within u.supply) (hacyclic : (run g u).2.subst.Acyclic) :
    Verdict.ofAnswer (run g u).1 ≠ .exhausted := by
  refine ((solves_run g u).grows hu (List.forall_mem_singleton.mpr hg) hacyclic
    (List.forall_mem_singleton.mpr (bounded_depth u g)) (Nat.mul_le_mul_left _ (Nat.pow_le_pow_right (by decide) ?_))).1
  exact Nat.le_trans (List.toFinset_card_le _) (Nat.le_of_eq (List.length_map _))

end Unifier

end RowTyping
