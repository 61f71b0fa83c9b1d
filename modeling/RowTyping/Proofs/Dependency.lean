import Mathlib.Data.Finset.Card
import Mathlib.Logic.Relation
import RowTyping.Proofs.Replacement

namespace RowTyping

open Relation

section Chains

variable {bound : Var → Prop} {next : Var → Var → Prop}

def Settled (bound : Var → Prop) (next : Var → Var → Prop) : Nat → Var → Prop
  | 0, v => ¬ bound v
  | n + 1, v => bound v → ∀ w, next v w → Settled bound next n w

theorem Settled.succ {n : Nat} {v : Var} (h : Settled bound next n v) : Settled bound next (n + 1) v := by
  induction n generalizing v with
  | zero => exact fun hv => absurd hv h
  | succ n ih => exact fun hv w hw => ih (h hv w hw)

theorem Settled.mono {n m : Nat} (hnm : n ≤ m) {v : Var} (h : Settled bound next n v) : Settled bound next m v := by
  induction hnm with
  | refl => exact h
  | step _ ih => exact ih.succ

theorem settled_card (D : Finset Var) {v : Var} (hD : ∀ w, ReflTransGen next v w → bound w → w ∈ D)
    (hv : ∀ w, ReflTransGen next v w → ¬ TransGen next w w) : Settled bound next D.card v := by
  induction hn : D.card generalizing D v with
  | zero =>
      intro hb
      have hmem := hD v .refl hb
      rw [Finset.card_eq_zero.mp hn] at hmem
      cases hmem
  | succ n ih =>
      intro hb w hw
      have hmem := hD v .refl hb
      refine ih (D.erase v) ?_ (fun x hx => hv x (.head hw hx)) ?_
      · intro x hx hbx
        refine Finset.mem_erase.mpr ⟨?_, hD x (.head hw hx) hbx⟩
        rintro rfl
        exact hv x .refl (TransGen.head' hw hx)
      · rw [Finset.card_erase_of_mem hmem, hn]
        rfl

end Chains

namespace Substitution

variable (s : Substitution)

def Binds : Var → Prop
  | .type id => ∃ t, s.lookupType id = some t
  | .row id => ∃ r, s.lookupRow id = some r

def uses : Var → List Var
  | .type id => ((s.lookupType id).map Ty.vars).getD []
  | .row id => ((s.lookupRow id).map Row.vars).getD []

def Depends (v w : Var) : Prop :=
  w ∈ s.uses v

def Acyclic : Prop :=
  ∀ v, ¬ TransGen s.Depends v v

def Stands : Var → Var → Prop
  | .type id, w => ∃ v, s.lookupType id = some (.var v) ∧ w = .type v.id
  | .row id, w => ∃ r id', s.lookupRow id = some r ∧ r.rest = some id' ∧ w = .row id'

def Chainless : Prop :=
  ∀ v, ¬ TransGen s.Stands v v

def domain : Finset Var :=
  (s.types.keys.map Var.type ++ s.rows.keys.map Var.row).toFinset

instance (v w : Var) : Decidable (s.Depends v w) :=
  inferInstanceAs (Decidable (w ∈ s.uses v))

variable {s}

theorem uses_type {id : TypeVarId} {t : Ty} (h : s.lookupType id = some t) : s.uses (.type id) = t.vars := by
  simp [uses, h]

theorem uses_row {id : RowVarId} {r : Row} (h : s.lookupRow id = some r) : s.uses (.row id) = r.vars := by
  simp [uses, h]

theorem Depends.binds {v w : Var} (h : s.Depends v w) : s.Binds v := by
  cases v with
  | type id =>
      cases ht : s.lookupType id with
      | none => simp [Depends, uses, ht] at h
      | some t => exact ⟨t, ht⟩
  | row id =>
      cases hr : s.lookupRow id with
      | none => simp [Depends, uses, hr] at h
      | some r => exact ⟨r, hr⟩

theorem Stands.depends {v w : Var} (h : s.Stands v w) : s.Depends v w := by
  cases v with
  | type id =>
      obtain ⟨v, ht, rfl⟩ := h
      simp [Depends, uses_type ht]
  | row id =>
      obtain ⟨⟨k, fs, rest⟩, id', hr, rfl, rfl⟩ := h
      rw [Depends, uses_row hr]
      exact Row.mem_vars.mpr (.inr ⟨id', rfl, rfl⟩)

theorem Acyclic.chainless (h : s.Acyclic) : s.Chainless :=
  fun v hv => h v (TransGen.mono (fun _ _ => Stands.depends) v v hv)

theorem acyclic_of_rank (rank : Var → Nat) (h : ∀ v w, s.Depends v w → rank w < rank v) : s.Acyclic := by
  have hdown : ∀ v w, TransGen s.Depends v w → rank w < rank v := by
    intro v w hvw
    induction hvw with
    | single hstep => exact h _ _ hstep
    | tail _ hstep ih => exact Nat.lt_trans (h _ _ hstep) ih
  exact fun v hv => Nat.lt_irrefl _ (hdown v v hv)

def Ranked (s : Substitution) (rank : Var → Nat) : Prop :=
  (∀ e ∈ s.types, ∀ w ∈ e.2.vars, rank w < rank (.type e.1)) ∧ ∀ e ∈ s.rows, ∀ w ∈ e.2.vars, rank w < rank (.row e.1)

instance (s : Substitution) (rank : Var → Nat) : Decidable (s.Ranked rank) :=
  inferInstanceAs (Decidable (_ ∧ _))

theorem Ranked.acyclic {rank : Var → Nat} (h : s.Ranked rank) : s.Acyclic := by
  refine acyclic_of_rank rank fun v w hvw => ?_
  cases v with
  | type id =>
      obtain ⟨t, ht⟩ := hvw.binds
      rw [Depends, uses_type ht] at hvw
      exact h.1 _ (OrderedMap.mem_of_find? ht) w hvw
  | row id =>
      obtain ⟨r, hr⟩ := hvw.binds
      rw [Depends, uses_row hr] at hvw
      exact h.2 _ (OrderedMap.mem_of_find? hr) w hvw

theorem mem_domain {v : Var} (h : s.Binds v) : v ∈ s.domain := by
  cases v with
  | type id =>
      obtain ⟨t, ht⟩ := h
      simpa [domain] using OrderedMap.mem_keys_iff.mpr ⟨t, ht⟩
  | row id =>
      obtain ⟨r, hr⟩ := h
      simpa [domain] using OrderedMap.mem_keys_iff.mpr ⟨r, hr⟩

theorem card_domain_le : s.domain.card ≤ s.depth := by
  refine (List.toFinset_card_le _).trans ?_
  simp [depth, OrderedMap.keys]

theorem Acyclic.settled (h : s.Acyclic) (v : Var) : Settled s.Binds s.Depends s.depth v :=
  (settled_card s.domain (fun _ _ => mem_domain) fun w _ => h w).mono card_domain_le

theorem Chainless.settled (h : s.Chainless) (v : Var) : Settled s.Binds s.Stands s.depth v :=
  (settled_card s.domain (fun _ _ => mem_domain) fun w _ => h w).mono card_domain_le

def assigned (s : Substitution) (f : Ty → Ty) (id : TypeVarId) : Option Ty :=
  (s.lookupType id).map f

def assignedRow (s : Substitution) (f : Row → Row) (id : RowVarId) : Option Row :=
  (s.lookupRow id).map f

theorem chase_succ (n : Nat) (t : Ty) :
    s.chase (n + 1) t = t.subst (s.assigned (s.chase n)) (s.assignedRow (s.chaseRow n)) := rfl

theorem chaseRow_succ (n : Nat) (r : Row) :
    s.chaseRow (n + 1) r = Ty.substRow (s.assigned (s.chase n)) (s.assignedRow (s.chaseRow n)) r := rfl

theorem apply_record (r : Row) : s.apply (.record r) = .record (s.applyRow r) := by
  rw [apply, applyRow]
  cases s.depth with
  | zero => rfl
  | succ n => rw [chase_succ, chaseRow_succ, Ty.subst_record]

theorem chaseRow_kind (n : Nat) (r : Row) : (s.chaseRow n r).kind = r.kind := by
  cases n with
  | zero => rfl
  | succ n => rw [chaseRow_succ, Ty.substRow_kind]

theorem applyRow_kind (r : Row) : (s.applyRow r).kind = r.kind :=
  chaseRow_kind _ r

theorem applyRow_same_kind {r r' : Row} (h : r.kind = r'.kind) : (s.applyRow r).kind = (s.applyRow r').kind := by
  rw [applyRow_kind, applyRow_kind, h]

theorem not_binds_agree {v : Var} (h : ¬ s.Binds v) {f : Ty → Ty} {g : Row → Row} :
    Ty.AgreeOn (s.assigned f) (fun _ => none) (s.assignedRow g) (fun _ => none) v := by
  cases v with
  | type id =>
      cases ht : s.lookupType id with
      | none => simp [Ty.AgreeOn, assigned, ht]
      | some t => exact absurd ⟨t, ht⟩ h
  | row id =>
      cases hr : s.lookupRow id with
      | none => simp [Ty.AgreeOn, assignedRow, hr]
      | some r => exact absurd ⟨r, hr⟩ h

theorem chase_settled (n : Nat) :
    (∀ t : Ty, (∀ v ∈ t.vars, Settled s.Binds s.Depends n v) → s.chase (n + 1) t = s.chase n t) ∧
      ∀ r : Row, (∀ v ∈ r.vars, Settled s.Binds s.Depends n v) → s.chaseRow (n + 1) r = s.chaseRow n r := by
  induction n with
  | zero =>
      constructor
      · intro t h
        rw [chase_succ, Ty.subst_congr fun v hv => not_binds_agree (h v hv), Ty.subst_none]
        rfl
      · intro r h
        rw [chaseRow_succ, Ty.substRow_congr fun v hv => not_binds_agree (h v hv), Ty.substRow_none]
        rfl
  | succ n ih =>
      have agree (v : Var) (hv : Settled s.Binds s.Depends (n + 1) v) :
          Ty.AgreeOn (s.assigned (s.chase (n + 1))) (s.assigned (s.chase n))
            (s.assignedRow (s.chaseRow (n + 1))) (s.assignedRow (s.chaseRow n)) v := by
        cases v with
        | type id =>
            cases ht : s.lookupType id with
            | none => simp [Ty.AgreeOn, assigned, ht]
            | some t =>
                have := ih.1 t fun w hw => hv ⟨t, ht⟩ w (by simpa [Depends, uses_type ht] using hw)
                simp [Ty.AgreeOn, assigned, ht, this]
        | row id =>
            cases hr : s.lookupRow id with
            | none => simp [Ty.AgreeOn, assignedRow, hr]
            | some r =>
                have := ih.2 r fun w hw => hv ⟨r, hr⟩ w (by simpa [Depends, uses_row hr] using hw)
                simp [Ty.AgreeOn, assignedRow, hr, this]
      constructor
      · intro t h
        rw [chase_succ, chase_succ, Ty.subst_congr fun v hv => agree v (h v hv)]
      · intro r h
        rw [chaseRow_succ, chaseRow_succ, Ty.substRow_congr fun v hv => agree v (h v hv)]

theorem Acyclic.chase_eq (h : s.Acyclic) {n : Nat} (hn : s.depth ≤ n) (t : Ty) : s.chase n t = s.apply t := by
  induction hn with
  | refl => rfl
  | step hle ih => rw [(chase_settled _).1 t fun v _ => (h.settled v).mono hle, ih]

theorem chase_free (n : Nat) :
    (∀ t : Ty, (∀ v ∈ t.vars, ¬ s.Binds v) → s.chase n t = t) ∧
      ∀ r : Row, (∀ v ∈ r.vars, ¬ s.Binds v) → s.chaseRow n r = r := by
  induction n with
  | zero => exact ⟨fun _ _ => rfl, fun _ _ => rfl⟩
  | succ n ih =>
      have settled (v : Var) (hv : ¬ s.Binds v) : Settled s.Binds s.Depends n v :=
        Settled.mono (Nat.zero_le n) (n := 0) hv
      constructor
      · intro t h
        rw [(chase_settled n).1 t fun v hv => settled v (h v hv), ih.1 t h]
      · intro r h
        rw [(chase_settled n).2 r fun v hv => settled v (h v hv), ih.2 r h]

theorem apply_of_free {t : Ty} (h : ∀ v ∈ t.vars, ¬ s.Binds v) : s.apply t = t :=
  (chase_free _).1 t h

theorem applyRow_of_free {r : Row} (h : ∀ v ∈ r.vars, ¬ s.Binds v) : s.applyRow r = r :=
  (chase_free _).2 r h

theorem free_of_image {n : Nat} {v w : Var} (hv : Settled s.Binds s.Depends (n + 1) v)
    (hn : (∀ t : Ty, (∀ x ∈ t.vars, Settled s.Binds s.Depends n x) → ∀ x ∈ (s.chase n t).vars, ¬ s.Binds x) ∧
      ∀ r : Row, (∀ x ∈ r.vars, Settled s.Binds s.Depends n x) → ∀ x ∈ (s.chaseRow n r).vars, ¬ s.Binds x)
    (hw : w ∈ Ty.image (s.assigned (s.chase n)) (s.assignedRow (s.chaseRow n)) v) : ¬ s.Binds w := by
  cases v with
  | type id =>
      cases ht : s.lookupType id with
      | none =>
          obtain rfl : w = .type id := by simpa [Ty.image, assigned, ht] using hw
          rintro ⟨t, ht'⟩
          rw [ht] at ht'
          cases ht'
      | some t =>
          refine hn.1 t (fun x hx => hv ⟨t, ht⟩ x ?_) w (by simpa [Ty.image, assigned, ht] using hw)
          rwa [Depends, uses_type ht]
  | row id =>
      cases hr : s.lookupRow id with
      | none =>
          obtain rfl : w = .row id := by simpa [Ty.image, assignedRow, hr] using hw
          rintro ⟨r, hr'⟩
          rw [hr] at hr'
          cases hr'
      | some r =>
          refine hn.2 r (fun x hx => hv ⟨r, hr⟩ x ?_) w (by simpa [Ty.image, assignedRow, hr] using hw)
          rwa [Depends, uses_row hr]

theorem free_of_chase (n : Nat) :
    (∀ t : Ty, (∀ v ∈ t.vars, Settled s.Binds s.Depends n v) → ∀ w ∈ (s.chase n t).vars, ¬ s.Binds w) ∧
      ∀ r : Row, (∀ v ∈ r.vars, Settled s.Binds s.Depends n v) → ∀ w ∈ (s.chaseRow n r).vars, ¬ s.Binds w := by
  induction n with
  | zero => exact ⟨fun _ h => h, fun _ h => h⟩
  | succ n ih =>
      constructor
      · intro t h w hw
        obtain ⟨v, hv, hw⟩ := Ty.mem_vars_subst hw
        exact free_of_image (h v hv) ih hw
      · intro r h w hw
        obtain ⟨v, hv, hw⟩ := Ty.mem_vars_substRow hw
        exact free_of_image (h v hv) ih hw

theorem Acyclic.free_of_apply (h : s.Acyclic) {t : Ty} {w : Var} (hw : w ∈ (s.apply t).vars) : ¬ s.Binds w :=
  (free_of_chase s.depth).1 t (fun v _ => h.settled v) w hw

theorem Acyclic.free_of_applyRow (h : s.Acyclic) {r : Row} {w : Var} (hw : w ∈ (s.applyRow r).vars) : ¬ s.Binds w :=
  (free_of_chase s.depth).2 r (fun v _ => h.settled v) w hw

theorem depends_of_image {n : Nat} {v w : Var}
    (hn : (∀ t : Ty, w ∈ (s.chase n t).vars → ∃ x ∈ t.vars, ReflTransGen s.Depends x w) ∧
      ∀ r : Row, w ∈ (s.chaseRow n r).vars → ∃ x ∈ r.vars, ReflTransGen s.Depends x w)
    (hw : w ∈ Ty.image (s.assigned (s.chase n)) (s.assignedRow (s.chaseRow n)) v) : ReflTransGen s.Depends v w := by
  cases v with
  | type id =>
      cases ht : s.lookupType id with
      | none =>
          obtain rfl : w = .type id := by simpa [Ty.image, assigned, ht] using hw
          exact .refl
      | some t =>
          obtain ⟨x, hx, hpath⟩ := hn.1 t (by simpa [Ty.image, assigned, ht] using hw)
          exact .head (by rwa [Depends, uses_type ht]) hpath
  | row id =>
      cases hr : s.lookupRow id with
      | none =>
          obtain rfl : w = .row id := by simpa [Ty.image, assignedRow, hr] using hw
          exact .refl
      | some r =>
          obtain ⟨x, hx, hpath⟩ := hn.2 r (by simpa [Ty.image, assignedRow, hr] using hw)
          exact .head (by rwa [Depends, uses_row hr]) hpath

theorem depends_of_chase (n : Nat) {w : Var} :
    (∀ t : Ty, w ∈ (s.chase n t).vars → ∃ v ∈ t.vars, ReflTransGen s.Depends v w) ∧
      ∀ r : Row, w ∈ (s.chaseRow n r).vars → ∃ v ∈ r.vars, ReflTransGen s.Depends v w := by
  induction n with
  | zero => exact ⟨fun _ hw => ⟨w, hw, .refl⟩, fun _ hw => ⟨w, hw, .refl⟩⟩
  | succ n ih =>
      constructor
      · intro t hw
        obtain ⟨v, hv, hw⟩ := Ty.mem_vars_subst hw
        exact ⟨v, hv, depends_of_image ih hw⟩
      · intro r hw
        obtain ⟨v, hv, hw⟩ := Ty.mem_vars_substRow hw
        exact ⟨v, hv, depends_of_image ih hw⟩

theorem depends_of_apply {t : Ty} {w : Var} (hw : w ∈ (s.apply t).vars) : ∃ v ∈ t.vars, ReflTransGen s.Depends v w :=
  (depends_of_chase _).1 t hw

theorem depends_of_applyRow {r : Row} {w : Var} (hw : w ∈ (s.applyRow r).vars) :
    ∃ v ∈ r.vars, ReflTransGen s.Depends v w :=
  (depends_of_chase _).2 r hw

section Closed

def Closed (s : Substitution) (V : Var → Prop) : Prop :=
  ∀ x y, V x → s.Depends x y → V y

variable {V : Var → Prop}

theorem Closed.reach (h : s.Closed V) {x y : Var} (hx : V x) (hxy : ReflTransGen s.Depends x y) : V y := by
  induction hxy with
  | refl => exact hx
  | tail _ hstep ih => exact h _ _ ih hstep

theorem Closed.apply (h : s.Closed V) {t : Ty} (ht : ∀ v ∈ t.vars, V v) : ∀ v ∈ (s.apply t).vars, V v := by
  intro w hw
  obtain ⟨v, hv, hpath⟩ := depends_of_apply hw
  exact h.reach (ht v hv) hpath

theorem Closed.applyRow (h : s.Closed V) {r : Row} (hr : ∀ v ∈ r.vars, V v) : ∀ v ∈ (s.applyRow r).vars, V v := by
  intro w hw
  obtain ⟨v, hv, hpath⟩ := depends_of_applyRow hw
  exact h.reach (hr v hv) hpath

end Closed

theorem Acyclic.apply_eq (h : s.Acyclic) (t : Ty) :
    s.apply t = t.subst (s.assigned s.apply) (s.assignedRow s.applyRow) := by
  have := (chase_settled s.depth).1 t fun v _ => h.settled v
  rw [apply, ← this, chase_succ]
  rfl

theorem Acyclic.applyRow_eq (h : s.Acyclic) (r : Row) :
    s.applyRow r = Ty.substRow (s.assigned s.apply) (s.assignedRow s.applyRow) r := by
  have := (chase_settled s.depth).2 r fun v _ => h.settled v
  rw [applyRow, ← this, chaseRow_succ]
  rfl

theorem Acyclic.apply_bound (h : s.Acyclic) {v : TypeVar} {t : Ty} (ht : s.lookupType v.id = some t) :
    s.apply (.var v) = s.apply t := by
  rw [h.apply_eq (.var v), Ty.subst_var, assigned, ht]
  rfl

theorem Acyclic.apply_free (h : s.Acyclic) {v : TypeVar} (ht : s.lookupType v.id = none) :
    s.apply (.var v) = .var v := by
  rw [h.apply_eq, Ty.subst_var, assigned, ht]
  rfl

theorem unbound_of_chase (n : Nat) {t : Ty} (ht : ∀ v, t = .var v → Settled s.Binds s.Stands n (.type v.id))
    {w : TypeVar} (h : s.chase n t = .var w) : ¬ s.Binds (.type w.id) := by
  induction n generalizing t with
  | zero => exact ht w h
  | succ n ih =>
      rw [chase_succ] at h
      cases t with
      | var v =>
          cases hv : s.lookupType v.id with
          | none =>
              simp only [Ty.subst_var, assigned, hv, Option.map_none, Option.getD_none, Ty.var.injEq] at h
              rintro ⟨x, hx⟩
              rw [← h, hv] at hx
              cases hx
          | some x =>
              simp only [Ty.subst_var, assigned, hv, Option.map_some, Option.getD_some] at h
              exact ih (fun u hu => ht v rfl ⟨x, hv⟩ _ ⟨u, hu ▸ hv, rfl⟩) h
      | con => cases h
      | app f as => rw [Ty.subst_app] at h; cases h
      | list a => cases h
      | tuple as => rw [Ty.subst_tuple] at h; cases h
      | fn ps e r => rw [Ty.subst_fn] at h; cases h
      | record r => cases h

theorem unbound_of_chaseRow (n : Nat) {r : Row} (hr : ∀ v, r.rest = some v → Settled s.Binds s.Stands n (.row v))
    {w : RowVarId} (h : (s.chaseRow n r).rest = some w) : ¬ s.Binds (.row w) := by
  induction n generalizing r with
  | zero => exact hr w h
  | succ n ih =>
      obtain ⟨k, fs, rest⟩ := r
      rw [chaseRow_succ] at h
      cases rest with
      | none =>
          rw [Ty.substRow_closed] at h
          cases h
      | some v =>
          cases hv : s.lookupRow v with
          | none =>
              rw [Ty.substRow_free (by simp [assignedRow, hv])] at h
              cases h
              rintro ⟨x, hx⟩
              rw [hv] at hx
              cases hx
          | some x =>
              have htail : s.assignedRow (s.chaseRow n) v = some (s.chaseRow n x) := by simp [assignedRow, hv]
              rw [Ty.substRow_bound htail] at h
              exact ih (fun u hu => hr v rfl ⟨x, hv⟩ _ ⟨x, u, hv, hu, rfl⟩) h

theorem Chainless.unbound_of_apply (h : s.Chainless) {t : Ty} {w : TypeVar} (ht : s.apply t = .var w) :
    ¬ s.Binds (.type w.id) :=
  unbound_of_chase s.depth (fun _ _ => h.settled _) ht

theorem Chainless.unbound_of_applyRow (h : s.Chainless) {r : Row} {w : RowVarId}
    (hr : (s.applyRow r).rest = some w) : ¬ s.Binds (.row w) :=
  unbound_of_chaseRow s.depth (fun _ _ => h.settled _) hr

end Substitution

end RowTyping
