import RowTyping.Proofs.Unification.Invariant

namespace RowTyping

/-- The kinds of the type variables, and for the row variables in use the kind of the labels of their rows. -/
structure Kinding where
  types : TypeVarId → Kind
  rows : RowVarId → Option Kind

namespace Kinding

def Allows (K : Kinding) : Occurrence → Prop
  | .type v => v.kind = K.types v.id
  | .tail r k => (K.rows r).map Kind.row = some k

instance (K : Kinding) : DecidablePred K.Allows
  | .type _ => inferInstanceAs (Decidable (_ = _))
  | .tail _ _ => inferInstanceAs (Decidable (_ = _))

def Fresh (K : Kinding) (sup : Supply) : Prop :=
  ∀ r, sup.nextRow ≤ r → K.rows r = none

structure Extends (K' K : Kinding) (sup sup' : Supply) : Prop where
  types : K'.types = K.types
  rows : ∀ r k, K.rows r = some k → K'.rows r = some k
  added : ∀ r k, K'.rows r = some k → K.rows r = some k ∨ sup.nextRow ≤ r ∧ r < sup'.nextRow
  supply : sup.nextRow ≤ sup'.nextRow

def assign (K : Kinding) (r : RowVarId) (k : Option Kind) : Kinding :=
  { K with rows := fun q => if q = r then k else K.rows q }

variable {K K' K'' : Kinding} {sup sup' sup'' : Supply}

theorem Extends.refl (K : Kinding) (sup : Supply) : K.Extends K sup sup :=
  ⟨rfl, fun _ _ h => h, fun _ _ h => .inl h, Nat.le_refl _⟩

theorem Extends.trans (h : K''.Extends K' sup' sup'') (h' : K'.Extends K sup sup') : K''.Extends K sup sup'' where
  types := h.types.trans h'.types
  rows r k hr := h.rows r k (h'.rows r k hr)
  added r k hr := by
    rcases h.added r k hr with hr | hr
    · exact (h'.added r k hr).imp_right fun hr => ⟨hr.1, Nat.lt_of_lt_of_le hr.2 h.supply⟩
    · exact .inr ⟨Nat.le_trans h'.supply hr.1, hr.2⟩
  supply := Nat.le_trans h'.supply h.supply

theorem Extends.fresh (h : K'.Extends K sup sup') (hK : K.Fresh sup) : K'.Fresh sup' := by
  intro r hr
  refine Option.eq_none_iff_forall_ne_some.mpr fun k hk => ?_
  rcases h.added r k hk with hk | hk
  · rw [hK r (Nat.le_trans h.supply hr)] at hk
    cases hk
  · exact Nat.not_lt.mpr hr hk.2

theorem Fresh.extends_assign (h : K.Fresh sup) (k : Option Kind) : (K.assign sup.nextRow k).Extends K sup sup.freshRow.2 where
  types := rfl
  rows r k hr := by
    have hne : r ≠ sup.nextRow := fun heq => by
      rw [h r (Nat.le_of_eq heq.symm)] at hr
      cases hr
    exact (if_neg hne).trans hr
  added r k hr := by
    by_cases heq : r = sup.nextRow
    · exact .inr ⟨Nat.le_of_eq heq.symm, heq ▸ Nat.lt_succ_self _⟩
    · exact .inl ((if_neg heq).symm.trans hr)
  supply := Nat.le_succ _

theorem Extends.allows (h : K'.Extends K sup sup') {o : Occurrence} (ho : K.Allows o) : K'.Allows o := by
  cases o with
  | type v => exact ho.trans (congrFun h.types v.id).symm
  | tail r k =>
      obtain ⟨labels, hlabels, rfl⟩ := Option.map_eq_some_iff.mp ho
      exact Option.map_eq_some_iff.mpr ⟨labels, h.rows r labels hlabels, rfl⟩

theorem Fresh.share (h : K.Fresh sup) {q : RowVarId} {k : Kind} (hq : K.Allows (.tail q k)) :
    ∃ K' : Kinding, K'.Extends K sup sup.freshRow.2 ∧ ∀ r ∈ some sup.nextRow, K'.Allows (.tail r k) := by
  obtain ⟨labels, _, rfl⟩ := Option.map_eq_some_iff.mp hq
  refine ⟨_, h.extends_assign (some labels), ?_⟩
  rintro r ⟨⟩
  exact Option.map_eq_some_iff.mpr ⟨labels, if_pos rfl, rfl⟩

end Kinding

def Ty.WellKinded (K : Kinding) (t : Ty) : Prop :=
  ∀ o ∈ t.occurrences, K.Allows o

def Row.WellKinded (K : Kinding) (r : Row) : Prop :=
  ∀ o ∈ r.occurrences, K.Allows o

instance (K : Kinding) (t : Ty) : Decidable (t.WellKinded K) :=
  inferInstanceAs (Decidable (∀ o ∈ t.occurrences, K.Allows o))

instance (K : Kinding) (r : Row) : Decidable (r.WellKinded K) :=
  inferInstanceAs (Decidable (∀ o ∈ r.occurrences, K.Allows o))

theorem hereditary_wellKinded (K : Kinding) : Hereditary (Ty.WellKinded K) (Row.WellKinded K) :=
  hereditary_occurrences K.Allows

section Rows

variable {K K' : Kinding} {sup sup' : Supply} {r a : Row}

theorem Ty.WellKinded.extends {t : Ty} (h : t.WellKinded K) (hK : K'.Extends K sup sup') : t.WellKinded K' :=
  fun o ho => hK.allows (h o ho)

theorem Row.WellKinded.extends (h : r.WellKinded K) (hK : K'.Extends K sup sup') : r.WellKinded K' :=
  fun o ho => hK.allows (h o ho)

theorem Row.wellKinded_mk {k : Kind} {fs : List (Label × Ty)} {rest : Option RowVarId} :
    Row.WellKinded K ⟨k, fs, rest⟩ ↔ (∀ f ∈ fs, f.2.WellKinded K) ∧ ∀ q ∈ rest, K.Allows (.tail q k) := by
  simp only [WellKinded, Row.mem_occurrences]
  constructor
  · exact fun h => ⟨fun f hf o ho => h o (.inl ⟨f, hf, ho⟩), fun q hq => h _ (.inr ⟨q, hq, rfl⟩)⟩
  · rintro ⟨hfs, hrest⟩ o (⟨f, hf, ho⟩ | ⟨q, hq, rfl⟩)
    · exact hfs f hf o ho
    · exact hrest q hq

theorem Row.WellKinded.tail (h : r.WellKinded K) {q : RowVarId} (hq : r.rest = some q) : K.Allows (.tail q r.kind) := by
  cases r
  exact (wellKinded_mk.mp h).2 q hq

theorem Row.WellKinded.only (h : r.WellKinded K) {k : Kind} {rest : Option RowVarId}
    (hrest : ∀ q ∈ rest, K.Allows (.tail q k)) : Row.WellKinded K ⟨k, r.only a, rest⟩ :=
  wellKinded_mk.mpr ⟨fun f hf => (hereditary_wellKinded K).field h f (List.mem_of_mem_filter hf), hrest⟩

end Rows

namespace Ty

variable {K : Kinding} {σ : TypeVarId → Option Ty} {ρ : RowVarId → Option Row}

-- A row keeps its own kind and takes the tail of its replacement, so that the replacement must have the kind of the row.
theorem wellKinded_subst_both (hσ : ∀ id x, σ id = some x → x.WellKinded K)
    (hρ : ∀ id x, ρ id = some x → x.WellKinded K ∧ K.Allows (.tail id x.kind)) :
    (∀ t : Ty, t.WellKinded K → (t.subst σ ρ).WellKinded K) ∧
      ∀ r : Row, r.WellKinded K → (substRow σ ρ r).WellKinded K := by
  have hereditary := hereditary_wellKinded K
  apply Ty.induct_rows
  case var =>
    intro v h
    cases hv : σ v.id with
    | none => simpa [hv] using h
    | some x => simpa [hv] using hσ v.id x hv
  case con => exact fun _ h => h
  case app =>
    intro f as hf has h
    obtain ⟨hwf, hwas⟩ := hereditary.app h
    rw [subst_app]
    intro o ho
    rcases mem_occurrences_app.mp ho with ho | ⟨_, hmem, ho⟩
    · exact hf hwf o ho
    · obtain ⟨a, ha, rfl⟩ := List.mem_map.mp hmem
      exact has a ha (hwas a ha) o ho
  case list => exact fun a ha h => ha (hereditary.list h)
  case tuple =>
    intro as has h
    rw [subst_tuple]
    intro o ho
    obtain ⟨_, hmem, ho⟩ := mem_occurrences_tuple.mp ho
    obtain ⟨a, ha, rfl⟩ := List.mem_map.mp hmem
    exact has a ha (hereditary.tuple h a ha) o ho
  case fn =>
    intro ps e r hps he hr h
    obtain ⟨hwps, hwe, hwr⟩ := hereditary.fn h
    rw [subst_fn]
    intro o ho
    rcases mem_occurrences_fn.mp ho with ⟨_, hmem, ho⟩ | ⟨_, hmem, ho⟩ | ho
    · obtain ⟨p, hp, rfl⟩ := List.mem_map.mp hmem
      exact hps p hp (hwps p hp) o ho
    · obtain ⟨row, rfl, rfl⟩ := Option.map_eq_some_iff.mp hmem
      exact he row rfl hwe o ho
    · exact hr hwr o ho
  case record => exact fun r hr h => hr (hereditary.record h)
  case row =>
    intro k fs rest hfs h
    obtain ⟨hwfs, hrest⟩ := Row.wellKinded_mk.mp h
    have hfields : ∀ f ∈ OrderedMap.mapValues (subst σ ρ) fs, f.2.WellKinded K := by
      intro _ hf
      obtain ⟨g, hg, rfl⟩ := List.mem_map.mp hf
      exact hfs g hg (hwfs g hg)
    cases htail : rest.bind ρ with
    | none =>
        rw [substRow_none_tail htail]
        exact Row.wellKinded_mk.mpr ⟨hfields, hrest⟩
    | some tail =>
        obtain ⟨r, rfl, hr⟩ := Option.bind_eq_some_iff.mp htail
        obtain ⟨hwtail, hkind⟩ := hρ r tail hr
        have hsame : tail.kind = k := Option.some.inj (hkind.symm.trans (hrest r rfl))
        rw [substRow_some_tail htail]
        refine Row.wellKinded_mk.mpr ⟨fun f hf => ?_, fun q hq => hsame ▸ hwtail.tail hq⟩
        exact (OrderedMap.mem_merge hf).elim (hfields f) (hereditary.field hwtail f)

theorem kind_subst (hσ : ∀ id x, σ id = some x → x.kind = K.types id) {t : Ty} (ht : t.WellKinded K) :
    (t.subst σ ρ).kind = t.kind := by
  cases t with
  | var v =>
      cases hv : σ v.id with
      | none => rw [subst_var, hv, Option.getD_none]
      | some x =>
          rw [subst_var, hv, Option.getD_some, hσ v.id x hv]
          exact (ht (.type v) (mem_occurrences_var.mpr rfl)).symm
  | _ => rfl

end Ty

namespace Substitution

structure WellKinded (K : Kinding) (s : Substitution) : Prop where
  types : ∀ id t, s.lookupType id = some t → t.WellKinded K ∧ t.kind = K.types id
  rows : ∀ id r, s.lookupRow id = some r → r.WellKinded K ∧ K.Allows (.tail id r.kind)

/-- Bindings keep the kinds of all that is well-kinded. No row variable for effects stands for a row of another kind, and no
type variable with the kind of a row for a type that is not a variable. -/
structure KeepsKinds (K : Kinding) (s : Substitution) : Prop where
  types : ∀ t : Ty, t.WellKinded K → (s.apply t).WellKinded K ∧ (s.apply t).kind = t.kind
  rows : ∀ r : Row, r.WellKinded K → (s.applyRow r).WellKinded K ∧ (s.applyRow r).kind = r.kind
  effectRows : ∀ id r, s.lookupRow id = some r → K.rows id = some .effect → r.kind = .effectRow
  rowTypes : ∀ id t, s.lookupType id = some t → K.types id ≠ .star → t.isVar

variable {K K' : Kinding} {s : Substitution}

theorem WellKinded.extends (h : s.WellKinded K) {sup sup' : Supply} (hK : K'.Extends K sup sup') : s.WellKinded K' where
  types id t ht := by
    obtain ⟨hwell, hkind⟩ := h.types id t ht
    exact ⟨hwell.extends hK, hkind.trans (congrFun hK.types id).symm⟩
  rows id r hr := by
    obtain ⟨hwell, hkind⟩ := h.rows id r hr
    exact ⟨hwell.extends hK, hK.allows hkind⟩

theorem WellKinded.bindType (h : s.WellKinded K) {v : TypeVarId} {t : Ty} (ht : t.WellKinded K) (hkind : t.kind = K.types v) :
    (s.bindType v t).WellKinded K where
  types id x hx := by
    rw [lookupType_bindType] at hx
    by_cases hid : id = v
    · rw [if_pos hid] at hx
      cases hx
      exact ⟨ht, hid ▸ hkind⟩
    · rw [if_neg hid] at hx
      exact h.types id x hx
  rows := h.rows

theorem WellKinded.bindRow (h : s.WellKinded K) {q : RowVarId} {r : Row} (hr : r.WellKinded K)
    (hkind : K.Allows (.tail q r.kind)) : (s.bindRow q r).WellKinded K where
  types := h.types
  rows id x hx := by
    rw [lookupRow_bindRow] at hx
    by_cases hid : id = q
    · rw [if_pos hid] at hx
      cases hx
      exact ⟨hr, hid ▸ hkind⟩
    · rw [if_neg hid] at hx
      exact h.rows id x hx

theorem WellKinded.chase (h : s.WellKinded K) (n : Nat) :
    (∀ t : Ty, t.WellKinded K → (s.chase n t).WellKinded K ∧ (s.chase n t).kind = t.kind) ∧
      ∀ r : Row, r.WellKinded K → (s.chaseRow n r).WellKinded K := by
  induction n with
  | zero => exact ⟨fun _ ht => ⟨ht, rfl⟩, fun _ hr => hr⟩
  | succ n ih =>
      have hσ : ∀ id x, s.assigned (s.chase n) id = some x → x.WellKinded K ∧ x.kind = K.types id := by
        intro id x hx
        obtain ⟨t, ht, rfl⟩ := Option.map_eq_some_iff.mp hx
        obtain ⟨hwell, hkind⟩ := h.types id t ht
        exact (ih.1 t hwell).imp_right fun hsame => hsame.trans hkind
      have hρ : ∀ id x, s.assignedRow (s.chaseRow n) id = some x → x.WellKinded K ∧ K.Allows (.tail id x.kind) := by
        intro id x hx
        obtain ⟨r, hr, rfl⟩ := Option.map_eq_some_iff.mp hx
        obtain ⟨hwell, hkind⟩ := h.rows id r hr
        exact ⟨ih.2 r hwell, (chaseRow_kind n r).symm ▸ hkind⟩
      have hsubst := Ty.wellKinded_subst_both (fun id x hx => (hσ id x hx).1) hρ
      exact ⟨fun t ht => ⟨hsubst.1 t ht, Ty.kind_subst (fun id x hx => (hσ id x hx).2) ht⟩, hsubst.2⟩

theorem WellKinded.apply (h : s.WellKinded K) {t : Ty} (ht : t.WellKinded K) : (s.apply t).WellKinded K :=
  ((h.chase s.depth).1 t ht).1

theorem WellKinded.applyRow (h : s.WellKinded K) {r : Row} (hr : r.WellKinded K) : (s.applyRow r).WellKinded K :=
  (h.chase s.depth).2 r hr

theorem WellKinded.keepsKinds (h : s.WellKinded K) : s.KeepsKinds K where
  types := (h.chase s.depth).1
  rows r hr := ⟨h.applyRow hr, applyRow_kind r⟩
  effectRows id r hr hid := by
    have hkind := (h.rows id r hr).2
    rw [Kinding.Allows, hid] at hkind
    exact (Option.some.inj hkind).symm
  rowTypes id t ht hid := by
    have hkind := (h.types id t ht).2
    cases t with
    | var => rfl
    | _ => exact absurd hkind.symm hid

end Substitution

abbrev Goal.WellKinded (K : Kinding) (g : Goal) : Prop :=
  g.Both (Ty.WellKinded K) (Row.WellKinded K)

theorem Goal.WellKinded.extends {K K' : Kinding} {sup sup' : Supply} {g : Goal} (h : g.WellKinded K)
    (hK : K'.Extends K sup sup') : g.WellKinded K' := by
  cases g with
  | types => exact ⟨h.1.extends hK, h.2.extends hK⟩
  | rows => exact ⟨h.1.extends hK, h.2.extends hK⟩

namespace Unifier

variable {K : Kinding} {u u' : Unifier} {n : Nat} {gs : List Goal} {verdict : Verdict}

theorem BindsType.wellKinded {v : TypeVar} {t : Ty} (h : BindsType u v t verdict u') (hs : u.subst.WellKinded K)
    (hv : (Ty.var v).WellKinded K) (ht : t.WellKinded K) : u'.subst.WellKinded K ∧ u'.supply = u.supply := by
  cases h with
  | same => exact ⟨hs, rfl⟩
  | refused => exact ⟨hs, rfl⟩
  | bound _ _ hkind =>
      have hvar : v.kind = K.types v.id := hv (.type v) (Ty.mem_occurrences_var.mpr rfl)
      exact ⟨hs.bindType ht (hkind.symm.trans hvar), rfl⟩

theorem BindsTail.wellKinded {q : RowVarId} {r : Row} (h : BindsTail u q r verdict u') (hs : u.subst.WellKinded K)
    (hr : r.WellKinded K) (hkind : K.Allows (.tail q r.kind)) : u'.subst.WellKinded K ∧ u'.supply = u.supply := by
  cases h with
  | same => exact ⟨hs, rfl⟩
  | refused => exact ⟨hs, rfl⟩
  | bound => exact ⟨hs.bindRow hr hkind, rfl⟩

def StaysKinded (K : Kinding) (u u' : Unifier) : Prop :=
  ∃ K', K'.Extends K u.supply u'.supply ∧ u'.subst.WellKinded K'

theorem StaysKinded.of_same (h : u'.subst.WellKinded K ∧ u'.supply = u.supply) : StaysKinded K u u' :=
  ⟨K, h.2 ▸ .refl K u.supply, h.1⟩

-- The rows have one kind; their tails have it too, and a tail that both come to share gets it.
theorem SettlesTails.staysKinded {e a : Row} (h : SettlesTails u e a verdict u') (hK : K.Fresh u.supply)
    (hs : u.subst.WellKinded K) (he : e.WellKinded K) (ha : a.WellKinded K) (hkind : e.kind = a.kind) :
    StaysKinded K u u' := by
  have closed {k : Kind} : ∀ q ∈ (none : Option RowVarId), K.Allows (.tail q k) := fun _ hq => nomatch hq
  cases h with
  | agree => exact .of_same ⟨hs, rfl⟩
  | labels => exact .of_same ⟨hs, rfl⟩
  | expected r _ _ her _ _ hbind => exact .of_same (hbind.wellKinded hs (ha.only closed) (he.tail her))
  | actual r _ _ _ har _ hbind => exact .of_same (hbind.wellKinded hs (he.only closed) (ha.tail har))
  | join r r' _ _ her har _ _ hax hbind =>
      rw [← hax] at hbind
      refine .of_same (hbind.wellKinded hs (ha.only fun q hq => ?_) (he.tail her))
      cases hq
      exact hkind ▸ ha.tail har
  | shareRefused r r' _ _ her _ _ _ hbind =>
      obtain ⟨K', hext, hshared⟩ := hK.share (he.tail her)
      have hfirst := hbind.wellKinded (hs.extends hext) ((ha.extends hext).only hshared) (hext.allows (he.tail her))
      exact ⟨K', hfirst.2 ▸ hext, hfirst.1⟩
  | share r r' _ u₁ _ her har _ _ hbind hbind' =>
      obtain ⟨K', hext, hshared⟩ := hK.share (he.tail her)
      have hfirst := hbind.wellKinded (hs.extends hext) ((ha.extends hext).only hshared) (hext.allows (he.tail her))
      rw [hkind] at hshared
      have hsecond := hbind'.wellKinded hfirst.1 ((he.extends hext).only hshared) (hext.allows (ha.tail har))
      exact ⟨K', (hsecond.2.trans hfirst.2) ▸ hext, hsecond.1⟩

theorem StaysKinded.trans {u₁ : Unifier} (h : StaysKinded K u u₁)
    (h' : ∀ K', K'.Extends K u.supply u₁.supply → u₁.subst.WellKinded K' → StaysKinded K' u₁ u') :
    StaysKinded K u u' := by
  obtain ⟨K₁, hext, hs⟩ := h
  obtain ⟨K₂, hext', hs'⟩ := h' K₁ hext hs
  exact ⟨K₂, hext'.trans hext, hs'⟩

theorem Solves.staysKinded (h : Solves n u gs verdict u') (hK : K.Fresh u.supply) (hs : u.subst.WellKinded K)
    (hgs : ∀ g ∈ gs, g.WellKinded K) : StaysKinded K u u' := by
  induction h generalizing K with
  | nil => exact .of_same ⟨hs, rfl⟩
  | cons _ _ ihhead ihrest =>
      rw [List.forall_mem_cons] at hgs
      refine (ihhead hK hs (List.forall_mem_singleton.mpr hgs.1)).trans fun K' hext hs' => ?_
      exact ihrest (hext.fresh hK) hs' fun g hg => (hgs.2 g hg).extends hext
  | stop _ _ ih =>
      rw [List.forall_mem_cons] at hgs
      exact ih hK hs (List.forall_mem_singleton.mpr hgs.1)
  | exhausted => exact .of_same ⟨hs, rfl⟩
  | identical => exact .of_same ⟨hs, rfl⟩
  | bind _ hmeet hbind =>
      obtain ⟨he, ha⟩ := List.forall_mem_singleton.mp hgs
      have he := hs.apply he
      have ha := hs.apply ha
      rcases Ty.bind_of_meet hmeet with ⟨hx, rfl⟩ | ⟨hx, rfl⟩
      · exact .of_same (hbind.wellKinded hs (hx ▸ he) ha)
      · exact .of_same (hbind.wellKinded hs (hx ▸ ha) he)
  | parts _ hmeet _ ih =>
      obtain ⟨he, ha⟩ := List.forall_mem_singleton.mp hgs
      exact ih hK hs ((Ty.parts_of_meet hmeet).both (hereditary_wellKinded K).toInherited (hs.apply he) (hs.apply ha))
  | rows _ hmeet _ ih =>
      obtain ⟨he, ha⟩ := List.forall_mem_singleton.mp hgs
      have he := hs.apply he
      have ha := hs.apply ha
      obtain ⟨hx, hy⟩ := Ty.rows_of_meet hmeet
      rw [hx] at he
      rw [hy] at ha
      exact ih hK hs (List.forall_mem_singleton.mpr ⟨(hereditary_wellKinded K).record he, (hereditary_wellKinded K).record ha⟩)
  | clash => exact .of_same ⟨hs, rfl⟩
  | kinds => exact .of_same ⟨hs, rfl⟩
  | equal => exact .of_same ⟨hs, rfl⟩
  | fields _ _ _ _ ih =>
      obtain ⟨he, ha⟩ := List.forall_mem_singleton.mp hgs
      exact ih hK hs (Row.commonGoals_both (hereditary_wellKinded K).toInherited (hs.applyRow he) (hs.applyRow ha))
  | restart _ _ _ _ _ ihfields ih =>
      obtain ⟨he, ha⟩ := List.forall_mem_singleton.mp hgs
      have he := hs.applyRow he
      have ha := hs.applyRow ha
      have fields := ihfields hK hs (Row.commonGoals_both (hereditary_wellKinded K).toInherited he ha)
      refine fields.trans fun K' hext hs' => ih (hext.fresh hK) hs' (List.forall_mem_singleton.mpr ?_)
      exact ⟨(hereditary_wellKinded K').residual _ (he.extends hext), (hereditary_wellKinded K').residual _ (ha.extends hext)⟩
  | tails hkind _ _ _ htails ih =>
      obtain ⟨he, ha⟩ := List.forall_mem_singleton.mp hgs
      have he := hs.applyRow he
      have ha := hs.applyRow ha
      have fields := ih hK hs (Row.commonGoals_both (hereditary_wellKinded K).toInherited he ha)
      refine fields.trans fun K' hext hs' => ?_
      exact htails.staysKinded (hext.fresh hK) hs' (he.extends hext) (ha.extends hext) (Substitution.applyRow_same_kind hkind)

theorem run_keepsKinds (hK : K.Fresh u.supply) (hs : u.subst.WellKinded K) {g : Goal} (hg : g.WellKinded K) :
    ∃ K', K'.Extends K u.supply (run g u).2.supply ∧ K'.Fresh (run g u).2.supply ∧ g.WellKinded K' ∧
      (run g u).2.subst.WellKinded K' ∧ (run g u).2.subst.KeepsKinds K' := by
  obtain ⟨K', hext, hs'⟩ := (solves_run g u).staysKinded hK hs (List.forall_mem_singleton.mpr hg)
  exact ⟨K', hext, hext.fresh hK, hg.extends hext, hs', hs'.keepsKinds⟩

theorem unify_keepsKinds (hK : K.Fresh u.supply) (hs : u.subst.WellKinded K) :
    (∀ e a : Ty, e.WellKinded K → a.WellKinded K →
      ∃ K', K'.Extends K u.supply (u.unify e a).2.supply ∧ K'.Fresh (u.unify e a).2.supply ∧
        (e.WellKinded K' ∧ a.WellKinded K') ∧ (u.unify e a).2.subst.WellKinded K' ∧ (u.unify e a).2.subst.KeepsKinds K') ∧
    ∀ e a : Row, e.WellKinded K → a.WellKinded K →
      ∃ K', K'.Extends K u.supply (u.unifyRows e a).2.supply ∧ K'.Fresh (u.unifyRows e a).2.supply ∧
        (e.WellKinded K' ∧ a.WellKinded K') ∧ (u.unifyRows e a).2.subst.WellKinded K' ∧
        (u.unifyRows e a).2.subst.KeepsKinds K' :=
  ⟨fun e a he ha => run_keepsKinds hK hs (g := .types e a) ⟨he, ha⟩,
    fun e a he ha => run_keepsKinds hK hs (g := .rows e a) ⟨he, ha⟩⟩

theorem unify_keepsKinds_shared :
    let K : Kinding := ⟨fun _ => .star, fun r => if r = 2 then some .record else if r < 4 then some .effect else none⟩
    let u := { ofSupply ⟨1, 4⟩ with subst := Substitution.empty.bindRow 1 (.openEffects ["Log"] 3) }
    let e := Ty.fn [.record (.openRecord [("x", .int)] 2)] (Effects.opened ["IO"] 0) (.ofVar 0)
    let a := Ty.fn [.record (.closedRecord [("x", .int), ("y", .bool)])] (Effects.opened ["State"] 1) .int
    (u.unify e a).1 = .ok () ∧ (u.unify e a).2.subst.lookupRow 3 = some (.openEffects ["IO"] 4) ∧
      ∃ K', K'.Extends K u.supply (u.unify e a).2.supply ∧ K'.Fresh (u.unify e a).2.supply ∧
        (e.WellKinded K' ∧ a.WellKinded K') ∧ (u.unify e a).2.subst.WellKinded K' ∧
        (u.unify e a).2.subst.KeepsKinds K' := by
  intro K u e a
  have hK : K.Fresh u.supply := by
    intro r (hr : 4 ≤ r)
    have hne : r ≠ 2 := Nat.ne_of_gt (Nat.lt_of_lt_of_le (by decide) hr)
    exact (if_neg hne).trans (if_neg (Nat.not_lt.mpr hr))
  have hs : u.subst.WellKinded K := by
    refine ⟨nofun, fun id r hr => ?_⟩
    simp only [u, Substitution.lookupRow_bindRow] at hr
    split at hr
    next hid =>
      cases hid
      cases hr
      decide
    next => cases hr
  exact ⟨by decide, by decide, (unify_keepsKinds hK hs).1 e a (by decide) (by decide)⟩

end Unifier

end RowTyping
