import RowTyping.Proofs.Layout
import RowTyping.Proofs.Unification.Soundness

namespace RowTyping

variable {M : Assignment → Prop} {φ φ' : Layout}

structure Layout.Agrees (φ φ' : Layout) (sup : Supply) : Prop where
  fields : ∀ v < sup.nextRow, φ'.fields v = φ.fields v
  held : φ'.held = φ.held
  tracks : φ'.tracks = φ.tracks
  positional : φ'.positional = φ.positional

namespace Layout

def extend (φ : Layout) (v : RowVarId) (fs : Option Fields) : Layout :=
  { φ with fields := fun w => if w = v then fs else φ.fields w }

theorem Agrees.refl (φ : Layout) (sup : Supply) : φ.Agrees φ sup :=
  ⟨fun _ _ => rfl, rfl, rfl, rfl⟩

theorem Agrees.trans {φ₁ : Layout} {sup sup₁ : Supply} (h : φ.Agrees φ₁ sup) (h' : φ₁.Agrees φ' sup₁)
    (hcovers : ∀ x, sup.Covers x → sup₁.Covers x) : φ.Agrees φ' sup :=
  ⟨fun v hv => (h'.fields v (hcovers (.row v) hv)).trans (h.fields v hv), h'.held.trans h.held,
    h'.tracks.trans h.tracks, h'.positional.trans h.positional⟩

theorem agrees_extend (φ : Layout) (sup : Supply) (fs : Option Fields) : φ.Agrees (φ.extend sup.nextRow fs) sup :=
  ⟨fun _ hv => if_neg (Nat.ne_of_lt hv), rfl, rfl, rfl⟩

theorem extend_self (φ : Layout) (v : RowVarId) (fs : Option Fields) : (φ.extend v fs).fields v = fs :=
  if_pos rfl

end Layout

section Agreement

variable {sup : Supply} (hagree : φ.Agrees φ' sup)

include hagree

theorem Row.Conforms.agrees {before : Option Fields} {r : Row} (h : r.Conforms φ M before)
    (hr : ∀ w, r.rest = some w → sup.Covers (.row w)) : r.Conforms φ' M before := by
  cases h with
  | untracked hkind hheld hrest =>
      exact .untracked (hagree.tracks ▸ hkind) (hagree.held ▸ hheld) fun v hv => (hagree.fields v (hr v hv)).trans (hrest v hv)
  | tracked hkind hlabels hrest =>
      refine .tracked (hagree.tracks ▸ hkind) hlabels fun v hv => ?_
      rw [hagree.fields v (hr v hv)]
      exact hrest v hv

theorem Ty.Conforms.agrees {t : Ty} (h : t.Conforms φ M) (ht : t.Within sup) : t.Conforms φ' M := by
  intro r hr
  rw [Row.start, hagree.tracks]
  refine (h r hr).agrees hagree fun w hw => ?_
  obtain ⟨k, fs, rest⟩ := r
  exact ht.2 _ (Row.vars_of_mem_rows.1 t hr _ (Row.mem_vars.mpr (.inr ⟨w, hw, rfl⟩)))

theorem Row.ConformsIn.agrees {before : Option Fields} {r : Row} (h : r.ConformsIn φ M before) (hr : r.Within sup) :
    r.ConformsIn φ' M before := by
  refine ⟨h.1.agrees hagree fun w => Unifier.covers_rest hr, fun f hf => (h.2 f hf).agrees hagree ?_⟩
  obtain ⟨k, fs, rest⟩ := r
  exact ⟨(ordered_iff.mp hr.1).2 f hf, fun v hv => hr.2 v (mem_vars.mpr (.inl ⟨f, hf, hv⟩))⟩

theorem Substitution.Conforms.agrees {s : Substitution} (h : s.Conforms φ M) (hs : s.Within sup)
    (hcovers : ∀ v, s.Binds v → sup.Covers v) : s.Conforms φ' M := by
  refine ⟨fun id t ht => (h.1 id t ht).agrees hagree (hs.1 id t ht), fun id r hr => ?_⟩
  rw [hagree.fields id (hcovers (.row id) ⟨r, hr⟩)]
  exact (h.2 id r hr).agrees hagree (hs.2 id r hr)

end Agreement

namespace Substitution

variable {s : Substitution}

theorem Conforms.bindType (h : s.Conforms φ M) {v : TypeVarId} {t : Ty} (ht : t.Conforms φ M) :
    (s.bindType v t).Conforms φ M := by
  refine ⟨fun id x hx => ?_, h.2⟩
  rw [lookupType_bindType] at hx
  by_cases hid : id = v
  · rw [if_pos hid] at hx
    exact Option.some.inj hx ▸ ht
  · rw [if_neg hid] at hx
    exact h.1 id x hx

theorem Conforms.bindRow (h : s.Conforms φ M) {v : RowVarId} {row : Row} (hrow : row.ConformsIn φ M (φ.fields v)) :
    (s.bindRow v row).Conforms φ M := by
  refine ⟨h.1, fun id x hx => ?_⟩
  rw [lookupRow_bindRow] at hx
  by_cases hid : id = v
  · rw [if_pos hid] at hx
    exact Option.some.inj hx ▸ hid ▸ hrow
  · rw [if_neg hid] at hx
    exact h.2 id x hx

end Substitution

namespace Goal

def Conforms (φ : Layout) (M : Assignment → Prop) : Goal → Prop
  | .types e a => e.Conforms φ M ∧ a.Conforms φ M
  | .rows e a => e.kind = a.kind → ∃ before, e.ConformsIn φ M before ∧ a.ConformsIn φ M before

theorem Conforms.mono {M' : Assignment → Prop} {g : Goal} (h : g.Conforms φ M) (hM : ∀ A, M' A → M A) :
    g.Conforms φ M' := by
  cases g with
  | types => exact ⟨h.1.mono hM, h.2.mono hM⟩
  | rows =>
      intro hkind
      obtain ⟨before, he, ha⟩ := h hkind
      exact ⟨before, he.mono hM, ha.mono hM⟩

theorem Conforms.agrees {sup : Supply} (hagree : φ.Agrees φ' sup) {g : Goal} (h : g.Conforms φ M) (hg : g.Within sup) :
    g.Conforms φ' M := by
  cases g with
  | types => exact ⟨h.1.agrees hagree hg.1, h.2.agrees hagree hg.2⟩
  | rows =>
      intro hkind
      obtain ⟨before, he, ha⟩ := h hkind
      exact ⟨before, he.agrees hagree hg.1, ha.agrees hagree hg.2⟩

theorem conforms_of_both {g : Goal}
    (h : g.Both (Ty.Conforms φ M) fun r => ∀ r' ∈ r.rows, r'.Conforms φ M (r'.start φ)) : g.Conforms φ M := by
  cases g with
  | types => exact h
  | rows e a =>
      intro hkind
      have hstart : e.start φ = a.start φ := by rw [Row.start, Row.start, hkind]
      exact ⟨a.start φ, hstart ▸ Row.conforms_start_iff.mp h.1, Row.conforms_start_iff.mp h.2⟩

end Goal

theorem Row.conforms_pure (φ : Layout) (M : Assignment → Prop) :
    (Row.closedEffects []).Conforms φ M ((Row.closedEffects []).start φ) := by
  rw [Row.start]
  cases htracks : φ.tracks (Row.closedEffects []).kind with
  | false =>
      refine .untracked htracks (List.forall_mem_nil _) ?_
      rintro w ⟨⟩
  | true =>
      refine .tracked htracks (List.forall_mem_nil _) ?_
      rintro w ⟨⟩

theorem inherited_conforms (φ : Layout) (M : Assignment → Prop) :
    Inherited (Ty.Conforms φ M) fun r => ∀ r' ∈ r.rows, r'.Conforms φ M (r'.start φ) :=
  inherited_rows _ (Row.conforms_pure φ M)

namespace Row

variable {e a : Row} {before : Fields}

theorem ConformsIn.only {b b' : Option Fields} {k : Kind} {rest : Option RowVarId} (ha : a.ConformsIn φ M b)
    (h : Row.Conforms φ M b' ⟨k, a.only e, rest⟩) : Row.ConformsIn φ M b' ⟨k, a.only e, rest⟩ :=
  ⟨h, fun f hf => ha.2 f (List.mem_of_mem_filter hf)⟩

theorem join_residual (ha : OrderedMap.Ascending a.fields) (l : Label) :
    (before.join e).join (a.residual e) l = (e.get? l).or ((a.get? l).or (before l)) := by
  rw [Fields.join, Fields.join, get?_residual ha]
  cases e.get? l <;> simp

-- Either row with what only the other one has: the same labels, and the same types where the common ones agree.
theorem same_residual (he : OrderedMap.Ascending e.fields) (ha : OrderedMap.Ascending a.fields)
    (hcommon : ∀ A, M A → ∀ g ∈ e.commonGoals a, g.Holds A) :
    ((before.join e).join (a.residual e)).Same M ((before.join a).join (e.residual a)) := by
  constructor
  · intro l
    rw [join_residual ha, join_residual he]
    cases e.get? l <;> cases a.get? l <;> rfl
  · intro A hA l
    rw [join_residual ha, join_residual he]
    cases het : e.get? l with
    | none => rfl
    | some t =>
        cases hat : a.get? l with
        | none => rfl
        | some t' => exact congrArg some ((commonGoals_hold he).mp (hcommon A hA) l t t' het hat)

theorem not_mem_labels_only {l : Label} (h : l ∈ OrderedMap.keys (a.only e)) : l ∈ a.labels ∧ l ∉ e.labels := by
  obtain ⟨f, hf, rfl⟩ := List.mem_map.mp h
  refine ⟨OrderedMap.mem_keys_of_mem (List.mem_of_mem_filter hf), fun hmem => ?_⟩
  have hhas : e.has f.1 = true := OrderedMap.contains_eq_true_iff.mpr hmem
  have := (List.mem_filter.mp hf).2
  simp [hhas] at this

theorem Conforms.only {b : Option Fields} {r : RowVarId} (he : e.Conforms φ M b) (ha : a.Conforms φ M b)
    (hr : e.rest = some r) {rest : Option RowVarId}
    (heffect : φ.fields r = none → ∀ w, rest = some w → φ.fields w = none)
    (hrecord : ∀ fs, φ.fields r = some fs → ∀ w, rest = some w →
      ∃ gs, φ.fields w = some gs ∧ (fs.join (a.residual e)).Same M gs) :
    Row.Conforms φ M (φ.fields r) ⟨e.kind, a.only e, rest⟩ := by
  cases he with
  | untracked hkind _ hrest =>
      cases ha with
      | untracked _ hheld _ =>
          rw [hrest r hr]
          exact .untracked hkind (fun f hf => hheld f (List.mem_of_mem_filter hf)) (heffect (hrest r hr))
  | tracked hkind _ hrest =>
      cases ha with
      | tracked _ hlabels _ =>
          obtain ⟨fs, hfs, hsame⟩ := hrest r hr
          rw [hfs]
          refine .tracked hkind (fun l hl => ?_) (hrecord fs hfs)
          obtain ⟨hmem, hnot⟩ := not_mem_labels_only hl
          exact (hsame.eq_none_iff l).mp (Fields.join_eq_none.mpr ⟨hnot, hlabels l hmem⟩)

theorem tails_agree {b : Option Fields} {r r' : RowVarId} (he : e.Conforms φ M b) (ha : a.Conforms φ M b)
    (hr : e.rest = some r) (hr' : a.rest = some r') (hasc : OrderedMap.Ascending e.fields)
    (hasc' : OrderedMap.Ascending a.fields) (hcommon : ∀ A, M A → ∀ g ∈ e.commonGoals a, g.Holds A) :
    (φ.fields r = none ∧ φ.fields r' = none) ∨ ∃ fs gs, φ.fields r = some fs ∧ φ.fields r' = some gs ∧
      (fs.join (a.residual e)).Same M (gs.join (e.residual a)) := by
  cases he with
  | untracked _ _ hrest =>
      cases ha with
      | untracked _ _ hrest' => exact .inl ⟨hrest r hr, hrest' r' hr'⟩
  | tracked _ _ hrest =>
      cases ha with
      | tracked _ _ hrest' =>
          obtain ⟨fs, hfs, hsame⟩ := hrest r hr
          obtain ⟨gs, hgs, hsame'⟩ := hrest' r' hr'
          exact .inr ⟨fs, gs, hfs, hgs, ((hsame.join _).symm.trans (same_residual hasc hasc' hcommon)).trans (hsame'.join _)⟩

-- The common labels, with the types of the first row, join what already stands before both rows.
theorem residual_conforms {b : Option Fields} (he : e.ConformsIn φ M b) (ha : a.ConformsIn φ M b)
    (hasc : OrderedMap.Ascending e.fields) (hasc' : OrderedMap.Ascending a.fields)
    (hcommon : ∀ A, M A → ∀ g ∈ e.commonGoals a, g.Holds A) :
    ∃ b', (e.residual a).ConformsIn φ M b' ∧ (a.residual e).ConformsIn φ M b' := by
  have hce := he.1
  have hca := ha.1
  cases hce with
  | untracked hkind hheld hrest =>
      cases hca with
      | untracked hkind' hheld' hrest' =>
          exact ⟨none, he.only (.untracked hkind (fun f hf => hheld f (List.mem_of_mem_filter hf)) hrest),
            ha.only (.untracked hkind' (fun f hf => hheld' f (List.mem_of_mem_filter hf)) hrest')⟩
  | @tracked before _ hkind hlabels hrest =>
      cases hca with
      | tracked hkind' hlabels' hrest' =>
          let settled : Fields := fun l => if (a.get? l).isSome then (e.get? l).or (before l) else before l
          have hsettled : settled.join (e.residual a) = before.join e := by
            funext l
            rw [Fields.join, Fields.join, get?_residual hasc]
            cases hat : a.get? l <;> simp [settled, hat]
          have hsettled' : (settled.join (a.residual e)).Same M (before.join a) := by
            constructor
            · intro l
              rw [Fields.join, Fields.join, get?_residual hasc']
              cases hat : a.get? l <;> cases het : e.get? l <;> simp [settled, hat, het]
            · intro A hA l
              rw [Fields.join, Fields.join, get?_residual hasc']
              cases hat : a.get? l with
              | none => cases het : e.get? l <;> simp [settled, hat]
              | some t' =>
                  cases het : e.get? l with
                  | none => simp
                  | some t => simp [settled, hat, het, (commonGoals_hold hasc).mp (hcommon A hA) l t t' het hat]
          refine ⟨some settled, he.only (.tracked hkind (fun l hl => ?_) ?_),
            ha.only (.tracked hkind' (fun l hl => ?_) ?_)⟩
          · obtain ⟨hmem, hnot⟩ := not_mem_labels_only hl
            have hnone : a.get? l = none := OrderedMap.find?_eq_none_iff.mpr hnot
            simp only [settled, hnone, Option.isSome_none, Bool.false_eq_true, if_false]
            exact hlabels l hmem
          · intro v hv
            obtain ⟨fs, hfs, hsame⟩ := hrest v hv
            exact ⟨fs, hfs, hsettled ▸ hsame⟩
          · obtain ⟨hmem, hnot⟩ := not_mem_labels_only hl
            have hnone : e.get? l = none := OrderedMap.find?_eq_none_iff.mpr hnot
            simp only [settled, hnone, Option.none_or, ite_self]
            exact hlabels' l hmem
          · intro v hv
            obtain ⟨fs, hfs, hsame⟩ := hrest' v hv
            exact ⟨fs, hfs, hsettled'.trans hsame⟩

end Row

namespace Unifier

variable {u u' : Unifier} {n : Nat} {gs : List Goal} {verdict : Verdict}

theorem BindsTail.conforms {r : RowVarId} {row : Row} (h : BindsTail u r row verdict u') (hs : u.subst.Conforms φ M)
    (hrow : row.ConformsIn φ M (φ.fields r)) : u'.subst.Conforms φ M := by
  cases h with
  | same => exact hs
  | refused => exact hs
  | bound => exact hs.bindRow hrow

def settledLayout (φ : Layout) (u : Unifier) (e a : Row) : Layout :=
  φ.extend u.supply.nextRow
    ((e.rest.bind φ.fields).map fun fs => fs.join (a.residual e))

theorem SettlesTails.conforms {e a : Row} (h : SettlesTails u e a verdict u') (he : e.Within u.supply)
    (ha : a.Within u.supply) (hs : u.subst.Conforms (settledLayout φ u e a) M)
    (hcommon : ∀ A, M A → ∀ g ∈ e.commonGoals a, g.Holds A) {before : Option Fields}
    (hce : e.ConformsIn φ M before) (hca : a.ConformsIn φ M before) :
    u'.subst.Conforms (settledLayout φ u e a) M := by
  have hagree : φ.Agrees (settledLayout φ u e a) u.supply := φ.agrees_extend _ _
  have hfresh : (settledLayout φ u e a).fields u.supply.nextRow = _ := φ.extend_self _ _
  have hce' := hce.agrees hagree he
  have hca' := hca.agrees hagree ha
  cases h with
  | agree => exact hs
  | labels => exact hs
  | expected r _ _ hr _ _ hbind =>
      exact hbind.conforms hs (hca'.only (hce'.1.only hca'.1 hr nofun nofun))
  | actual r _ _ _ hr _ hbind =>
      exact hbind.conforms hs (hce'.only (hca'.1.only hce'.1 hr nofun nofun))
  | join r r' _ _ hr hr' _ hex hax hbind =>
      have htails := Row.tails_agree hce'.1 hca'.1 hr hr' he.ascending ha.ascending hcommon
      rw [← hax] at hbind
      refine hbind.conforms hs (hca'.only (hce'.1.only hca'.1 hr ?_ ?_))
      · rintro hnone w ⟨⟩
        rcases htails with ⟨_, hr'⟩ | ⟨fs, _, hfs, _⟩
        · exact hr'
        · rw [hnone] at hfs
          cases hfs
      · rintro fs hfs w ⟨⟩
        rcases htails with ⟨hnone, _⟩ | ⟨fs', gs, hfs', hgs, hsame⟩
        · rw [hnone] at hfs
          cases hfs
        · rw [Fields.join_of_empty (r := e.residual a) hex] at hsame
          rw [hfs'] at hfs
          exact ⟨gs, hgs, Option.some.inj hfs ▸ hsame⟩
  | shareRefused _ _ _ _ _ _ _ _ hbind hne =>
      cases hbind with
      | same => exact absurd rfl hne
      | refused => exact hs
      | bound => exact absurd rfl hne
  | share r r' _ u₁ _ hr hr' _ _ hfirst hsecond =>
      have htails := Row.tails_agree hce'.1 hca'.1 hr hr' he.ascending ha.ascending hcommon
      have hnext : (settledLayout φ u e a).fields u.supply.nextRow =
          ((settledLayout φ u e a).fields r).map fun fs => fs.join (a.residual e) := by
        rw [hagree.fields r (covers_rest he hr), hfresh, hr]
        rfl
      have first := hfirst.conforms hs (hca'.only (hce'.1.only hca'.1 hr
        (by rintro hnone w ⟨⟩; rw [hnext, hnone]; rfl)
        (by rintro fs hfs w ⟨⟩; exact ⟨_, by rw [hnext, hfs]; rfl, .refl _⟩)))
      refine hsecond.conforms first (hce'.only (hca'.1.only hce'.1 hr' ?_ ?_))
      · rintro hnone w ⟨⟩
        rcases htails with ⟨hr, _⟩ | ⟨_, gs, _, hgs, _⟩
        · rw [hnext, hr]
          rfl
        · rw [hnone] at hgs
          cases hgs
      · rintro gs hgs w ⟨⟩
        rcases htails with ⟨_, hnone⟩ | ⟨fs, gs', hfs, hgs', hsame⟩
        · rw [hnone] at hgs
          cases hgs
        · rw [hgs'] at hgs
          refine ⟨_, by rw [hnext, hfs]; rfl, ?_⟩
          exact Option.some.inj hgs ▸ hsame.symm

theorem Ready.rows_conform (hu : u.Ready) (hM : ∀ A, M A → u.subst.Admits A) (hs : u.subst.Conforms φ M)
    {e a : Row} (hg : (Goal.rows e a).Within u.supply) (hkind : e.kind = a.kind) (hgoal : (Goal.rows e a).Conforms φ M) :
    ∃ before, (u.subst.applyRow e).ConformsIn φ M before ∧ (u.subst.applyRow a).ConformsIn φ M before := by
  obtain ⟨before, he, ha⟩ := hgoal hkind
  exact ⟨before, hs.applyRow hM hu.within.ordered hg.1.1 he, hs.applyRow hM hu.within.ordered hg.2.1 ha⟩

theorem commonGoals_conform {e a : Row} {b b' : Option Fields} (he : e.ConformsIn φ M b) (ha : a.ConformsIn φ M b') :
    ∀ g ∈ e.commonGoals a, g.Conforms φ M := by
  intro g hg
  obtain ⟨l, t, t', hmem, ht', rfl⟩ := Row.mem_commonGoals.mp hg
  exact ⟨he.2 _ hmem, ha.2 _ (OrderedMap.mem_of_find? ht')⟩

theorem Solves.conforms (h : Solves n u gs verdict u') (hu : u.Ready) (hgs : ∀ g ∈ gs, g.Within u.supply) (φ : Layout) :
    ∃ φ', φ.Agrees φ' u.supply ∧ ∀ M, (∀ A, M A → u'.subst.Admits A) → u.subst.Conforms φ M →
      (∀ g ∈ gs, g.Conforms φ M) → u'.subst.Conforms φ' M := by
  induction h generalizing φ with
  | nil => exact ⟨φ, .refl _ _, fun _ _ hs _ => hs⟩
  | cons hhead hrest ihhead ihrest =>
      rw [List.forall_mem_cons] at hgs
      have hfirst := List.forall_mem_singleton.mpr hgs.1
      have moves := hhead.moves hu hfirst
      have hrestgs := fun g hg => (hgs.2 g hg).mono fun v => moves.covers
      obtain ⟨φ₁, hagree, hconf⟩ := ihhead hu hfirst φ
      obtain ⟨φ₂, hagree', hconf'⟩ := ihrest (moves.ready hu) hrestgs φ₁
      refine ⟨φ₂, hagree.trans hagree' fun v => moves.covers, fun M hM hs hgoals => ?_⟩
      rw [List.forall_mem_cons] at hgoals
      have hext := (hrest.moves (moves.ready hu) hrestgs).extends
      have hs₁ := hconf M (fun A hA => ⟨(hM A hA).1, (hM A hA).2.of_extends hext⟩) hs
        (List.forall_mem_singleton.mpr hgoals.1)
      exact hconf' M hM hs₁ fun g hg => (hgoals.2 g hg).agrees hagree (hgs.2 g hg)
  | stop _ _ ih =>
      rw [List.forall_mem_cons] at hgs
      obtain ⟨φ', hagree, hconf⟩ := ih hu (List.forall_mem_singleton.mpr hgs.1) φ
      refine ⟨φ', hagree, fun M hM hs hgoals => hconf M hM hs (List.forall_mem_singleton.mpr ?_)⟩
      exact hgoals _ List.mem_cons_self
  | exhausted => exact ⟨φ, .refl _ _, fun _ _ hs _ => hs⟩
  | identical => exact ⟨φ, .refl _ _, fun _ _ hs _ => hs⟩
  | bind hne hmeet hbind =>
      have hext := ((Solves.bind (n := 0) hne hmeet hbind).moves hu hgs).extends
      refine ⟨φ, .refl _ _, fun M hM hs hgoals => ?_⟩
      have hM₀ := fun A hA => And.intro (hM A hA).1 ((hM A hA).2.of_extends hext)
      have hg := List.forall_mem_singleton.mp hgs
      obtain ⟨he, ha⟩ := List.forall_mem_singleton.mp hgoals
      have he := hs.apply hM₀ hu.within.ordered hg.1.1 he
      have ha := hs.apply hM₀ hu.within.ordered hg.2.1 ha
      cases hbind with
      | same => exact hs
      | refused => exact hs
      | bound =>
          rcases Ty.bind_of_meet hmeet with ⟨_, rfl⟩ | ⟨_, rfl⟩
          · exact hs.bindType ha
          · exact hs.bindType he
  | parts hne hmeet hparts ih =>
      have hg := List.forall_mem_singleton.mp hgs
      have hext := ((Solves.parts hne hmeet hparts).moves hu hgs).extends
      obtain ⟨φ', hagree, hconf⟩ := ih (hu.record _ _ _) (hu.parts_within hg hmeet) φ
      refine ⟨φ', hagree, fun M hM hs hgoals => hconf M hM hs fun g hmem => Goal.conforms_of_both ?_⟩
      have hM₀ := fun A hA => And.intro (hM A hA).1 ((hM A hA).2.of_extends hext)
      obtain ⟨he, ha⟩ := List.forall_mem_singleton.mp hgoals
      exact (Ty.parts_of_meet hmeet).both (inherited_conforms φ M) (hs.apply hM₀ hu.within.ordered hg.1.1 he)
        (hs.apply hM₀ hu.within.ordered hg.2.1 ha) g hmem
  | rows hne hmeet hrows ih =>
      have hg := List.forall_mem_singleton.mp hgs
      have hext := ((Solves.rows hne hmeet hrows).moves hu hgs).extends
      obtain ⟨φ', hagree, hconf⟩ := ih hu (List.forall_mem_singleton.mpr (hu.rows_within hg hmeet)) φ
      refine ⟨φ', hagree, fun M hM hs hgoals => hconf M hM hs (List.forall_mem_singleton.mpr (Goal.conforms_of_both ?_))⟩
      have hM₀ := fun A hA => And.intro (hM A hA).1 ((hM A hA).2.of_extends hext)
      obtain ⟨he, ha⟩ := List.forall_mem_singleton.mp hgoals
      obtain ⟨hx, hy⟩ := Ty.rows_of_meet hmeet
      have he := hs.apply hM₀ hu.within.ordered hg.1.1 he
      have ha := hs.apply hM₀ hu.within.ordered hg.2.1 ha
      rw [hx] at he
      rw [hy] at ha
      exact ⟨(inherited_conforms φ M).record he, (inherited_conforms φ M).record ha⟩
  | clash => exact ⟨φ, .refl _ _, fun _ _ hs _ => hs⟩
  | kinds => exact ⟨φ, .refl _ _, fun _ _ hs _ => hs⟩
  | equal => exact ⟨φ, .refl _ _, fun _ _ hs _ => hs⟩
  | fields hkind hne hfields hsolved ih =>
      have hg := List.forall_mem_singleton.mp hgs
      have hext := ((Solves.fields hkind hne hfields hsolved).moves hu hgs).extends
      obtain ⟨φ', hagree, hconf⟩ := ih (hu.record _ _ _) (hu.commonGoals_within hg) φ
      refine ⟨φ', hagree, fun M hM hs hgoals => hconf M hM hs ?_⟩
      have hM₀ := fun A hA => And.intro (hM A hA).1 ((hM A hA).2.of_extends hext)
      obtain ⟨_, he, ha⟩ := hu.rows_conform hM₀ hs hg hkind (List.forall_mem_singleton.mp hgoals)
      exact commonGoals_conform he ha
  | restart hkind hne hfields hbound hrest ihfields ih =>
      have hg := List.forall_mem_singleton.mp hgs
      have hext := ((Solves.restart hkind hne hfields hbound hrest).moves hu hgs).extends
      have moves := hfields.moves (hu.record _ _ _) (hu.commonGoals_within hg)
      have hready := moves.ready (hu.record _ _ _)
      have hwithin := (hu.residual_within hg).mono fun v => moves.covers
      have hresidual := List.forall_mem_singleton.mpr hwithin
      have happlied := hu.applyGoal_within hg
      obtain ⟨φ₁, hagree, hconf⟩ := ihfields (hu.record _ _ _) (hu.commonGoals_within hg) φ
      obtain ⟨φ₂, hagree', hconf'⟩ := ih hready hresidual φ₁
      refine ⟨φ₂, hagree.trans hagree' fun v => moves.covers, fun M hM hs hgoals => ?_⟩
      have hM₀ := fun A hA => And.intro (hM A hA).1 ((hM A hA).2.of_extends hext)
      have hM₁ := fun A hA => And.intro (hM A hA).1 ((hM A hA).2.of_extends (hrest.moves hready hresidual).extends)
      obtain ⟨_, he, ha⟩ := hu.rows_conform hM₀ hs hg hkind (List.forall_mem_singleton.mp hgoals)
      have hs₁ := hconf M hM₁ hs (commonGoals_conform he ha)
      have hcommon := fun A (hA : M A) =>
        hfields.sound rfl (hu.record _ _ _) (hu.commonGoals_within hg) (hM₁ A hA).1 (hM₁ A hA).2
      refine hconf' M hM hs₁ (List.forall_mem_singleton.mpr (Goal.Conforms.agrees hagree ?_ (hu.residual_within hg)))
      exact fun _ => Row.residual_conforms he ha happlied.1.ascending happlied.2.ascending hcommon
  | @tails n u u₁ u' e a verdict hkind hne hfields hbound htails ih =>
      have hg := List.forall_mem_singleton.mp hgs
      have hext := ((Solves.tails hkind hne hfields hbound htails).moves hu hgs).extends
      have moves := hfields.moves (hu.record _ _ _) (hu.commonGoals_within hg)
      have hready := moves.ready (hu.record _ _ _)
      have happlied := hu.applyGoal_within hg
      obtain ⟨he₁, ha₁⟩ := happlied.mono fun v => moves.covers
      obtain ⟨hfe, hfa⟩ := Bool.or_eq_false_iff.mp hbound
      have hext₁ := (htails.moves hready he₁ ha₁ (isBound_eq_false.mp hfe) (isBound_eq_false.mp hfa)).extends
      obtain ⟨φ₁, hagree, hconf⟩ := ih (hu.record _ _ _) (hu.commonGoals_within hg) φ
      have hagree' : φ₁.Agrees (settledLayout φ₁ u₁ (u.subst.applyRow e) (u.subst.applyRow a)) u₁.supply :=
        φ₁.agrees_extend _ _
      refine ⟨settledLayout φ₁ u₁ _ _, hagree.trans hagree' fun v => moves.covers, fun M hM hs hgoals => ?_⟩
      have hM₀ := fun A hA => And.intro (hM A hA).1 ((hM A hA).2.of_extends hext)
      have hM₁ := fun A hA => And.intro (hM A hA).1 ((hM A hA).2.of_extends hext₁)
      obtain ⟨_, he, ha⟩ := hu.rows_conform hM₀ hs hg hkind (List.forall_mem_singleton.mp hgoals)
      have hs₁ := hconf M hM₁ hs (commonGoals_conform he ha)
      have hcommon := fun A (hA : M A) =>
        hfields.sound rfl (hu.record _ _ _) (hu.commonGoals_within hg) (hM₁ A hA).1 (hM₁ A hA).2
      exact htails.conforms he₁ ha₁ (hs₁.agrees hagree' hready.within hready.covers) hcommon
        (he.agrees hagree happlied.1) (ha.agrees hagree happlied.2)

end Unifier

end RowTyping
