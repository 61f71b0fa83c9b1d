import RowTyping.Effects
import RowTyping.Proofs.EffectRows
import RowTyping.Proofs.Inference.Solving

namespace RowTyping

def Row.OfEffects (φ : Layout) (r : Row) : Prop :=
  r.kind = .effectRow ∧ (∀ f ∈ r.fields, f.2 = .unit) ∧ ∀ w, r.rest = some w → φ.fields w = none

theorem Layout.Records.tracks_record {φ : Layout} (h : φ.Records) : φ.tracks .recordRow = true := by
  rw [h.tracks]
  rfl

theorem Layout.Records.tracks_effect {φ : Layout} (h : φ.Records) : φ.tracks .effectRow = false := by
  rw [h.tracks]
  rfl

namespace State

variable {s : State}

theorem ownsRow_mk {k : Kind} {fs : OrderedMap Label Ty} {rest : Option RowVarId} (hasc : fs.Ascending)
    (hfs : ∀ f ∈ fs, s.Owns f.2) (hrest : ∀ w, rest = some w → s.supply.Covers (.row w))
    (hconf : ∀ φ ∈ s.layout, Row.Conforms φ Nowhere (Row.start φ ⟨k, fs, rest⟩) ⟨k, fs, rest⟩) : s.OwnsRow ⟨k, fs, rest⟩ where
  within := by
    refine ⟨Row.ordered_iff.mpr ⟨hasc, fun f hf => (hfs f hf).within.1⟩, fun v hv => ?_⟩
    rcases Row.mem_vars.mp hv with ⟨f, hf, hv⟩ | ⟨w, hw, rfl⟩
    · exact (hfs f hf).within.2 v hv
    · exact hrest w hw
  conforms φ hφ r hr := by
    rcases Row.mem_rows.mp hr with rfl | ⟨f, hf, hr⟩
    · exact hconf φ hφ
    · exact (hfs f hf).conforms φ hφ r hr
  shaped φ hφ f hf := (hfs f hf).shaped φ hφ

theorem mem_ofList {fs : List (Label × Ty)} (hfs : ∀ f ∈ fs, s.Owns f.2) : ∀ f ∈ OrderedMap.ofList fs, s.Owns f.2 :=
  fun f hf => (OrderedMap.mem_merge hf).elim (fun h => nomatch h) (hfs f)

variable {fs : List (Label × Ty)}

theorem ownsRow_closedRecord (hs : s.Ready) (hfs : ∀ f ∈ fs, s.Owns f.2) : s.OwnsRow (.closedRecord fs) := by
  have hclosed {P : RowVarId → Prop} : ∀ w, none = some w → P w := by rintro w ⟨⟩
  refine ownsRow_mk (OrderedMap.ascending_ofList fs) (mem_ofList hfs) hclosed fun φ hφ => ?_
  have htracks := (hs.records φ hφ).tracks_record
  rw [Row.start, if_pos htracks]
  exact .tracked htracks (fun _ _ => rfl) hclosed

theorem ownsRow_openRecord (hs : s.Ready) (hfs : ∀ f ∈ fs, s.Owns f.2) {r : RowVarId} (hr : s.supply.Covers (.row r))
    (hfields : ∀ φ ∈ s.layout, φ.fields r = some (Fields.empty.join (.closedRecord fs))) : s.OwnsRow (.openRecord fs r) := by
  refine ownsRow_mk (OrderedMap.ascending_ofList fs) (mem_ofList hfs) (fun w hw => Option.some.inj hw ▸ hr) fun φ hφ => ?_
  have htracks := (hs.records φ hφ).tracks_record
  rw [Row.start, if_pos htracks]
  refine .tracked htracks (fun _ _ => rfl) fun w hw => ⟨_, Option.some.inj hw ▸ hfields φ hφ, .refl _⟩

theorem ownsEffects_of (hs : s.Ready) {row : Row} (hasc : OrderedMap.Ascending row.fields)
    (hunits : ∀ f ∈ row.fields, s.Owns f.2) (hrest : ∀ w, row.rest = some w → s.supply.Covers (.row w))
    (h : ∀ φ ∈ s.layout, row.OfEffects φ) : s.OwnsEffects (some row) := by
  obtain ⟨k, fs, rest⟩ := row
  refine ⟨ownsRow_mk hasc hunits hrest fun φ hφ => ?_, fun φ hφ => (h φ hφ).1⟩
  obtain ⟨rfl, hheld, htail⟩ := h φ hφ
  have htracks := (hs.records φ hφ).tracks_effect
  rw [Row.start, if_neg (by simp [htracks])]
  exact .untracked htracks (fun f hf => ((hs.records φ hφ).held _).mpr (hheld f hf)) htail

theorem OwnsEffects.ofEffects (hs : s.Ready) {e : Effects} (he : s.OwnsEffects e) {φ : Layout} (hφ : φ ∈ s.layout) :
    e.toRow.OfEffects φ := by
  have hkind := he.kind φ hφ
  have hconf := (Row.conforms_start_iff.mp (he.conforms φ hφ)).1
  rw [Row.start, if_neg (by simp [hkind, (hs.records φ hφ).tracks_effect])] at hconf
  cases hconf with
  | untracked _ hheld htail => exact ⟨hkind, fun f hf => ((hs.records φ hφ).held _).mp (hheld f hf), htail⟩

theorem mem_unit_fields {labels : List Label} {f : Label × Ty} (hf : f ∈ (Row.closedEffects labels).fields) : f.2 = .unit := by
  rcases OrderedMap.mem_merge hf with h | h
  · cases h
  · obtain ⟨l, -, rfl⟩ := List.mem_map.mp h
    rfl

theorem ownsEffects_opened (hs : s.Ready) (labels : List Label) {r : RowVarId} (hr : s.supply.Covers (.row r))
    (hfields : ∀ φ ∈ s.layout, φ.fields r = none) : s.OwnsEffects (Effects.opened labels r) := by
  refine ownsEffects_of hs (OrderedMap.ascending_ofList _) (fun f hf => ?_) (fun w hw => Option.some.inj hw ▸ hr) fun φ hφ =>
    ⟨rfl, fun f hf => mem_unit_fields hf, fun w hw => Option.some.inj hw ▸ hfields φ hφ⟩
  rw [mem_unit_fields hf]
  exact owns_con _

theorem ownsEffects_closed (hs : s.Ready) (labels : List Label) : s.OwnsEffects (Effects.closed labels) := by
  refine ownsEffects_of hs (OrderedMap.ascending_ofList _) (fun f hf => ?_) nofun fun φ hφ =>
    ⟨rfl, fun f hf => mem_unit_fields hf, nofun⟩
  rw [mem_unit_fields hf]
  exact owns_con _

theorem ownsEffects_none (hs : s.Ready) : s.OwnsEffects none :=
  have h := ownsEffects_closed hs []
  ⟨h.toOwnsRow, h.kind⟩

theorem OwnsEffects.owns_field {e : Effects} (he : s.OwnsEffects e) {f : Label × Ty} (hf : f ∈ e.toRow.fields) : s.Owns f.2 :=
  (inherited_owns s).field he.toOwnsRow f hf

theorem OwnsEffects.covers_tail {e : Effects} (he : s.OwnsEffects e) {r : RowVarId} (hr : e.tail = some r) :
    s.supply.Covers (.row r) := by
  cases e with
  | none => cases hr
  | some row => exact Unifier.covers_rest he.within hr

theorem OwnsEffects.opened_tail (hs : s.Ready) {e : Effects} (he : s.OwnsEffects e) {r : RowVarId} (hr : e.tail = some r) :
    s.OwnsEffects (Effects.opened [] r) := by
  refine ownsEffects_opened hs [] (he.covers_tail hr) fun φ hφ => ?_
  obtain ⟨-, -, htail⟩ := he.ofEffects hs hφ
  cases e with
  | none => cases hr
  | some row => exact htail r hr

theorem OwnsEffects.union (hs : s.Ready) {a b : Effects} (ha : s.OwnsEffects a) (hb : s.OwnsEffects b) :
    s.OwnsEffects (Effects.union a b) := by
  cases a with
  | none => exact hb
  | some a =>
      cases b with
      | none => exact ha
      | some b =>
          have hrest {w : RowVarId} (hw : Effects.unionTail a.rest b.rest = some w) : a.rest = some w ∨ b.rest = some w := by
            cases ha : a.rest <;> cases hb : b.rest <;> simp only [ha, hb, Effects.unionTail] at hw ⊢ <;> grind
          refine ownsEffects_of hs (ha.within.ascending.merge _) (fun f hf => ?_) (fun w hw => ?_) fun φ hφ => ?_
          · exact (OrderedMap.mem_merge hf).elim (fun h => ha.owns_field h) fun h => hb.owns_field h
          · exact (hrest hw).elim (fun h => ha.covers_tail h) fun h => hb.covers_tail h
          · obtain ⟨hkind, hfields, htail⟩ := ha.ofEffects hs hφ
            obtain ⟨_, hfields', htail'⟩ := hb.ofEffects hs hφ
            exact ⟨hkind, fun f hf => (OrderedMap.mem_merge hf).elim (hfields f) (hfields' f),
              fun w hw => (hrest hw).elim (htail w) (htail' w)⟩

theorem OwnsEffects.unionAll (hs : s.Ready) {rows : List Effects} (h : ∀ e ∈ rows, s.OwnsEffects e) :
    s.OwnsEffects (Effects.unionAll rows) := by
  have hfoldl {e : Effects} (he : s.OwnsEffects e) : s.OwnsEffects (rows.foldl Effects.union e) := by
    induction rows generalizing e with
    | nil => exact he
    | cons r rows ih =>
        rw [List.forall_mem_cons] at h
        exact ih h.2 (he.union hs h.1)
  exact hfoldl (ownsEffects_none hs)

theorem OwnsEffects.normalize (hs : s.Ready) {e : Effects} (he : s.OwnsEffects e) : s.OwnsEffects (Effects.normalize e) := by
  rw [Effects.normalize]
  split
  · exact ownsEffects_none hs
  · exact he

theorem OwnsEffects.applyEffects (hs : s.Ready) {e : Effects} (he : s.OwnsEffects e) :
    s.OwnsEffects (s.subst.applyEffects e) := by
  cases e with
  | none => exact he
  | some r => exact ⟨he.toOwnsRow.applyRow hs, fun φ hφ => (Substitution.applyRow_kind r).trans (he.kind φ hφ)⟩

theorem Ready.entails_applyEffects (hs : s.Ready) {e : Effects} (he : e.toRow.Ordered) :
    s.Entails fun A => (s.subst.applyEffects e).value A = e.value A := by
  cases e with
  | none => exact fun _ _ => rfl
  | some row => exact fun A hA => congrArg some (hs.entails_applyRow he A hA)

theorem OwnsEffects.ascending {e : Effects} (he : s.OwnsEffects e) : OrderedMap.Ascending e.toRow.fields :=
  he.within.ascending

theorem ownsEffects_latent {ps : List Ty} {e : Effects} {r : Ty} (h : s.Owns (.fn ps e r)) : s.OwnsEffects e := by
  refine ⟨(inherited_owns s).fn h |>.2.1, fun φ hφ => ?_⟩
  cases h.shaped φ hφ with
  | fn _ hkind _ _ =>
      cases e with
      | none => rfl
      | some row => exact hkind row rfl

end State

end RowTyping
