import RowTyping.Proofs.Instantiation
import RowTyping.Proofs.Renumbering.Types
import RowTyping.Proofs.Unification.Kinds

namespace RowTyping

namespace Ty

variable {σ σ' : TypeVarId → Option Ty} {ρ : RowVarId → Option Row} {π : Renumbering}

-- Each row variable is left alone or gets a new number, which then stands where it stood.
theorem subst_eq_renumber_both (hρ : ∀ r, ρ r = none ∧ π.row r = r ∨ ∃ k, ρ r = some ⟨k, [], some (π.row r)⟩) :
    (∀ t : Ty, (∀ v, .type v ∈ t.occurrences → (Ty.var v).subst σ ρ = ((Ty.var v).subst σ' fun _ => none).renumber π) →
        t.subst σ ρ = (t.subst σ' fun _ => none).renumber π) ∧
      ∀ r : Row, (∀ v, .type v ∈ r.occurrences → (Ty.var v).subst σ ρ = ((Ty.var v).subst σ' fun _ => none).renumber π) →
        substRow σ ρ r = (substRow σ' (fun _ => none) r).renumber π := by
  apply Ty.induct_rows
  case var => exact fun v h => h v (mem_occurrences_var.mpr rfl)
  case con => exact fun _ _ => rfl
  case app =>
    intro f as hf has h
    rw [subst_app, subst_app, renumber_app, List.map_map, hf fun v hv => h v (mem_occurrences_app.mpr (.inl hv))]
    congr 1
    exact List.map_congr_left fun a ha => has a ha fun v hv => h v (mem_occurrences_app.mpr (.inr ⟨a, ha, hv⟩))
  case list =>
    intro a ha h
    rw [subst_list, subst_list, renumber_list, ha h]
  case tuple =>
    intro as has h
    rw [subst_tuple, subst_tuple, renumber_tuple, List.map_map]
    congr 1
    exact List.map_congr_left fun a ha => has a ha fun v hv => h v (mem_occurrences_tuple.mpr ⟨a, ha, hv⟩)
  case fn =>
    intro ps e r hps he hr h
    have hparams : ps.map (subst σ ρ) = (ps.map (subst σ' fun _ => none)).map (renumber π) := by
      rw [List.map_map]
      exact List.map_congr_left fun p hp => hps p hp fun v hv => h v (mem_occurrences_fn.mpr (.inl ⟨p, hp, hv⟩))
    have heffects : e.map (substRow σ ρ) = Effects.renumber π (e.map (substRow σ' fun _ => none)) := by
      cases e with
      | none => rfl
      | some row => exact congrArg some (he row rfl fun v hv => h v (mem_occurrences_fn.mpr (.inr (.inl ⟨row, rfl, hv⟩))))
    rw [subst_fn, subst_fn, renumber_fn, hparams, heffects, hr fun v hv => h v (mem_occurrences_fn.mpr (.inr (.inr hv)))]
  case record =>
    intro r hr h
    rw [subst_record, subst_record, renumber_record, hr h]
  case row =>
    intro k fs rest hfs h
    have hfields : OrderedMap.mapValues (subst σ ρ) fs =
        OrderedMap.mapValues (renumber π) (OrderedMap.mapValues (subst σ' fun _ => none) fs) := by
      rw [OrderedMap.mapValues, OrderedMap.mapValues, OrderedMap.mapValues, List.map_map]
      exact List.map_congr_left fun f hf =>
        congrArg (Prod.mk f.1) (hfs f hf fun v hv => h v (Row.mem_occurrences.mpr (.inl ⟨f, hf, hv⟩)))
    cases rest with
    | none => rw [substRow_closed, substRow_closed, Row.renumber_mk, hfields, Option.map_none]
    | some r =>
        rw [substRow_free (ρ := fun _ => none) rfl, Row.renumber_mk, ← hfields, Option.map_some]
        rcases hρ r with ⟨hnone, hfixed⟩ | ⟨k', hsome⟩
        · rw [substRow_free hnone, hfixed]
        · rw [substRow_bound hsome]
          rfl

end Ty

structure Renumbering.Refreshes (π : Renumbering) (s s' : Supply) (chosen : Var → Prop) : Prop where
  drawn : ∀ v, chosen v → s.Drawn s' (v.renumber π)
  distinct : ∀ v w, chosen v → chosen w → v.renumber π = w.renumber π → v = w
  fixed : ∀ v, ¬ chosen v → v.renumber π = v

def numbered (next : Nat) (ids : List Nat) (id : Nat) : Nat :=
  if id ∈ ids then next + ids.idxOf id else id

section Numbered

variable {next : Nat} {ids : List Nat} {id id' : Nat}

theorem numbered_of_mem (h : id ∈ ids) : numbered next ids id = next + ids.idxOf id :=
  if_pos h

theorem numbered_of_not_mem (h : id ∉ ids) : numbered next ids id = id :=
  if_neg h

theorem numbered_bounds (next : Nat) (h : id ∈ ids) : ¬ numbered next ids id < next ∧ numbered next ids id < next + ids.length := by
  have := List.idxOf_lt_length_of_mem h
  rw [numbered_of_mem h]
  omega

theorem numbered_inj (h : id ∈ ids) (h' : id' ∈ ids) (heq : numbered next ids id = numbered next ids id') : id = id' := by
  rw [numbered_of_mem h, numbered_of_mem h'] at heq
  exact (List.idxOf_inj h).mp (Nat.add_left_cancel heq)

theorem numbered_of_mem_zipIdx {α : Type} {f : α → Nat} {as : List α} (hnodup : (as.map f).Nodup) {a : α} {i : Nat}
    (h : (a, i) ∈ as.zipIdx next) : numbered next (as.map f) (f a) = i := by
  obtain ⟨hle, hlt, ha⟩ := List.mem_zipIdx h
  have hlen : i - next < (as.map f).length := by rw [List.length_map]; omega
  have hget : (as.map f)[i - next] = f a := by rw [List.getElem_map, ← ha]
  have hidx := hnodup.idxOf_getElem (i - next) hlen
  rw [hget] at hidx
  rw [numbered_of_mem (hget ▸ List.getElem_mem hlen), hidx]
  omega

end Numbered

namespace Scheme

variable {scheme : Scheme} {s : Supply}

theorem isMono_iff : scheme.isMono = true ↔ ¬ ∃ v, v ∈ scheme.quantified := by
  simp [isMono, quantified, List.eq_nil_iff_forall_not_mem, forall_and]

def renumbering (scheme : Scheme) (s : Supply) : Renumbering :=
  ⟨numbered s.nextType (scheme.typeVars.map TypeVar.id), numbered s.nextRow scheme.rowVars⟩

theorem refreshes_renumbering (scheme : Scheme) (s : Supply) :
    (scheme.renumbering s).Refreshes s (scheme.supplyAfter s) (· ∈ scheme.quantified) where
  drawn v hv := by
    cases v with
    | type id =>
        have hbounds := numbered_bounds s.nextType (type_mem_quantified.mp hv)
        rwa [List.length_map] at hbounds
    | row id => exact numbered_bounds s.nextRow (row_mem_quantified.mp hv)
  distinct v w hv hw heq := by
    cases v with
    | type id =>
        cases w with
        | type id' => exact congrArg Var.type (numbered_inj (type_mem_quantified.mp hv) (type_mem_quantified.mp hw) (Var.type.inj heq))
        | row id' => cases heq
    | row id =>
        cases w with
        | type id' => cases heq
        | row id' => exact congrArg Var.row (numbered_inj (row_mem_quantified.mp hv) (row_mem_quantified.mp hw) (Var.row.inj heq))
  fixed v hv := by
    cases v with
    | type id => exact congrArg Var.type (numbered_of_not_mem fun h => hv (type_mem_quantified.mpr h))
    | row id => exact congrArg Var.row (numbered_of_not_mem fun h => hv (row_mem_quantified.mpr h))

def rekind (scheme : Scheme) (t : Ty) : Ty :=
  t.subst (fun id => (scheme.typeVars.find? fun v => v.id == id).map Ty.var) fun _ => none

theorem rekind_of_kinded {t : Ty} (h : ∀ v, .type v ∈ t.occurrences → ∀ w ∈ scheme.typeVars, w.id = v.id → w = v) :
    scheme.rekind t = t := by
  have hsame : scheme.rekind t = (t.subst (fun _ => none) fun _ => none).renumber .identity := by
    refine (Ty.subst_eq_renumber_both fun r => .inl ⟨rfl, rfl⟩).1 t fun v hv => ?_
    rw [Ty.subst_var, Ty.subst_var, Option.getD_none, Ty.renumber_identity]
    cases hw : scheme.typeVars.find? fun w => w.id == v.id with
    | none => rfl
    | some w => exact congrArg Ty.var (h v hv w (List.mem_of_find?_eq_some hw) (by simpa using List.find?_some hw))
  rw [hsame, Ty.renumber_identity, Ty.subst_none]

theorem find?_typeVars (htypes : (scheme.typeVars.map TypeVar.id).Nodup) {v : TypeVar} (hv : v ∈ scheme.typeVars) :
    (scheme.typeVars.find? fun w => w.id == v.id) = some v := by
  cases hw : scheme.typeVars.find? fun w => w.id == v.id with
  | none => exact absurd (beq_self_eq_true v.id) (List.find?_eq_none.mp hw v hv)
  | some w =>
      have hid : w.id = v.id := by simpa using List.find?_some hw
      exact congrArg some (List.inj_on_of_nodup_map htypes (List.mem_of_find?_eq_some hw) hv hid)

theorem apply_replacement (htypes : (scheme.typeVars.map TypeVar.id).Nodup) (hrows : scheme.rowVars.Nodup)
    (hfresh : ∀ v, s.Drawn (scheme.supplyAfter s) v → v ∉ scheme.quantified) (t : Ty) :
    (scheme.replacement s).apply t = (scheme.rekind t).renumber (scheme.renumbering s) := by
  rw [(flat_replacement hfresh).apply_eq]
  refine (Ty.subst_eq_renumber_both fun r => ?_).1 t fun v _ => ?_
  · cases hr : (scheme.replacement s).lookupRow r with
    | none =>
        have hfree : r ∉ scheme.rowVars := fun hmem =>
          Substitution.not_binds_row.mpr hr (binds_replacement.mpr (row_mem_quantified.mpr hmem))
        exact .inl ⟨rfl, numbered_of_not_mem hfree⟩
    | some x =>
        obtain ⟨i, hi, rfl⟩ := lookupRow_replacement hr
        have hnumber : (scheme.renumbering s).row r = i := by
          have h := numbered_of_mem_zipIdx (f := id) (by rwa [List.map_id]) hi
          rwa [List.map_id] at h
        exact .inr ⟨.recordRow, by rw [hnumber]; rfl⟩
  · rw [Ty.subst_var, Ty.subst_var]
    cases hv : (scheme.replacement s).lookupType v.id with
    | none =>
        have hfree : v.id ∉ scheme.typeVars.map TypeVar.id := fun hmem =>
          Substitution.not_binds_type.mpr hv (binds_replacement.mpr (type_mem_quantified.mpr hmem))
        have hnone : (scheme.typeVars.find? fun w => w.id == v.id) = none :=
          List.find?_eq_none.mpr fun w hw heq => hfree (List.mem_map.mpr ⟨w, hw, beq_iff_eq.mp heq⟩)
        rw [hnone]
        exact congrArg Ty.var (TypeVar.renumber_of_fixed (congrArg Var.type (numbered_of_not_mem hfree))).symm
    | some x =>
        obtain ⟨w, i, hi, hid, rfl⟩ := lookupType_replacement hv
        rw [← hid, find?_typeVars htypes (List.fst_mem_of_mem_zipIdx hi)]
        exact congrArg (fun n => Ty.var ⟨n, w.kind⟩) (numbered_of_mem_zipIdx htypes hi).symm

end Scheme

namespace Ty

variable {t : Ty} {ps : List Predicate} {envTypeVars : List TypeVarId} {envRowVars : List RowVarId}

def Generic (t : Ty) (envTypeVars : List TypeVarId) (envRowVars : List RowVarId) : Var → Prop
  | .type id => id ∈ t.typeVars ∧ id ∉ envTypeVars
  | .row id => id ∈ t.rowVars ∧ id ∉ envRowVars

theorem Generic.free {v : Var} (h : t.Generic envTypeVars envRowVars v) : t.Free v := by
  cases v with
  | type id => exact h.1
  | row id => exact h.1

theorem mem_quantified_generalize {v : Var} :
    v ∈ (t.generalize ps envTypeVars envRowVars).quantified ↔ t.Generic envTypeVars envRowVars v := by
  cases v with
  | type id => exact Scheme.type_mem_quantified.trans (mem_typeVars_generalize.trans OrderedSet.mem_diff)
  | row id => exact Scheme.row_mem_quantified.trans (mem_rowVars_generalize.trans OrderedSet.mem_diff)

theorem nodup_typeVars_generalize : ((t.generalize ps envTypeVars envRowVars).typeVars.map TypeVar.id).Nodup := by
  rw [generalize, List.map_map]
  exact (OrderedMap.Ascending.filter _ t.ascending_typeVarKinds).nodup_keys

theorem nodup_rowVars_generalize : (t.generalize ps envTypeVars envRowVars).rowVars.Nodup :=
  t.ascending_rowVarKinds.nodup_keys.filter _

theorem occurs_of_mem_generalize {v : TypeVar} (h : v ∈ (t.generalize ps envTypeVars envRowVars).typeVars) :
    .type v ∈ t.occurrences := by
  obtain ⟨e, he, rfl⟩ := List.mem_map.mp h
  replace he := List.mem_of_mem_filter he
  rw [typeVarKinds_eq] at he
  rcases OrderedMap.mem_merge he with he | he
  · cases he
  · obtain ⟨o, ho, hoe⟩ := List.mem_filterMap.mp he
    cases o with
    | type w => exact Option.some.inj hoe ▸ ho
    | tail => cases hoe

theorem rekind_generalize {κ : TypeVarId → Kind} (ht : t.Over (TypeVar.HasKind κ)) {u : Ty} (hu : u.Over (TypeVar.HasKind κ)) :
    (t.generalize ps envTypeVars envRowVars).rekind u = u := by
  refine Scheme.rekind_of_kinded fun v hv w hw hid => ?_
  have hkind : w.kind = v.kind := by rw [ht w (occurs_of_mem_generalize hw), hu v hv, hid]
  cases v
  cases w
  exact congrArg₂ TypeVar.mk hid hkind

end Ty

namespace InferM

theorem instantiate_generalize {κ : TypeVarId → Kind} {t : Ty} (hκ : t.Over (TypeVar.HasKind κ)) (ps : List Predicate)
    (envTypeVars : List TypeVarId) (envRowVars : List RowVarId) (node : NodeId) {c : Context}
    (hc : ∀ v, t.Free v → c.unifier.supply.Covers v) :
    Ensures (instantiate (t.generalize ps envTypeVars envRowVars) node) c fun u c' =>
      ∃ π : Renumbering,
        π.Refreshes c.unifier.supply c'.unifier.supply (t.Generic envTypeVars envRowVars) ∧ u = t.renumber π ∧
          ((∃ v, t.Generic envTypeVars envRowVars v) → c'.classes = c.classes.append (ps.map
            (Predicate.constraint c.path node fun a => ((t.generalize ps envTypeVars envRowVars).rekind a).renumber π))) ∧
          ((¬ ∃ v, t.Generic envTypeVars envRowVars v) → c'.classes = c.classes) ∧
          ∀ a : Ty, a.Over (TypeVar.HasKind κ) → (t.generalize ps envTypeVars envRowVars).rekind a = a := by
  refine (ensures_instantiate _ node c).mono ?_
  rintro _ c' ⟨rfl, hunifier, hclasses⟩
  generalize hscheme : t.generalize ps envTypeVars envRowVars = scheme at *
  have hchosen {v : Var} : v ∈ scheme.quantified ↔ t.Generic envTypeVars envRowVars v := hscheme ▸ Ty.mem_quantified_generalize
  have hty : scheme.ty = t := hscheme ▸ rfl
  have hpredicates : scheme.predicates = ps := hscheme ▸ rfl
  have hrekind (a : Ty) (ha : a.Over (TypeVar.HasKind κ)) : scheme.rekind a = a := hscheme ▸ Ty.rekind_generalize hκ ha
  have happly (a : Ty) : (scheme.replacement c.unifier.supply).apply a =
      (scheme.rekind a).renumber (scheme.renumbering c.unifier.supply) :=
    Scheme.apply_replacement (hscheme ▸ Ty.nodup_typeVars_generalize) (hscheme ▸ Ty.nodup_rowVars_generalize)
      (fun v hv hq => hv.1 (hc v (hchosen.mp hq).free)) a
  have hmono : scheme.isMono = true ↔ ¬ ∃ v, t.Generic envTypeVars envRowVars v := by
    simp only [Scheme.isMono_iff, hchosen]
  refine ⟨scheme.renumbering c.unifier.supply, ?_, ?_, fun hsome => ?_, fun hnone => ?_, hrekind⟩
  · rw [hunifier]
    simpa only [hchosen] using scheme.refreshes_renumbering c.unifier.supply
  · rw [happly, hty, hrekind t hκ]
  · rw [hclasses, Scheme.demands, if_neg fun h => hmono.mp h hsome, hpredicates, funext happly]
  · rw [hclasses, Scheme.demands, if_pos (hmono.mpr hnone), Scopes.append_nil]

theorem instantiate_generalize_captured :
    let t := Ty.fn [.ofVar 0] (Effects.opened ["IO"] 0) (.record (.openRecord [("a", .ofVar 1), ("b", .ofVar 0)] 1))
    let ps : List Predicate := [⟨"Eq", .ofVar 0⟩, ⟨"Show", .ofVar 1⟩]
    let c := Context.ofSupply ⟨10, 20⟩
    (t.Over (TypeVar.HasKind fun _ => .star) ∧ ∀ v, t.Free v → c.unifier.supply.Covers v) ∧
      Ensures (instantiate (t.generalize ps [1] []) 0) c (fun u c' =>
        ∃ π : Renumbering, π.Refreshes c.unifier.supply c'.unifier.supply (t.Generic [1] []) ∧ u = t.renumber π ∧
          ((∃ v, t.Generic [1] [] v) → c'.classes = c.classes.append (ps.map
            (Predicate.constraint c.path 0 fun a => ((t.generalize ps [1] []).rekind a).renumber π))) ∧
          ((¬ ∃ v, t.Generic [1] [] v) → c'.classes = c.classes) ∧
          ∀ a : Ty, a.Over (TypeVar.HasKind fun _ => .star) → (t.generalize ps [1] []).rekind a = a) ∧
      (t.Generic [1] [] (.type 0) ∧ t.Generic [1] [] (.row 0)) ∧
      ((instantiate (t.generalize ps [1] []) 0).run c).1 =
        .fn [.ofVar 10] (Effects.opened ["IO"] 20) (.record (.openRecord [("a", .ofVar 1), ("b", .ofVar 10)] 21)) := by
  intro t ps c
  have hκ : t.Over (TypeVar.HasKind fun _ => .star) := by decide
  have hvars : ∀ v ∈ t.vars, c.unifier.supply.Covers v := by decide
  have hc : ∀ v, t.Free v → c.unifier.supply.Covers v := fun v hv => hvars v (Ty.free_iff.mp hv)
  exact ⟨⟨hκ, hc⟩, instantiate_generalize hκ ps [1] [] 0 hc, ⟨⟨by decide, by decide⟩, ⟨by decide, by decide⟩⟩, by decide⟩

end InferM

end RowTyping
