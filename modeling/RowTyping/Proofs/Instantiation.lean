import RowTyping.Proofs.Application
import RowTyping.Proofs.Inference.Ensures
import RowTyping.Proofs.Inference.Scopes
import RowTyping.Proofs.Quantification

namespace RowTyping

open Relation

namespace Substitution

variable {s : Substitution}

def Flat (s : Substitution) : Prop :=
  ∀ v w, s.Depends v w → ¬ s.Binds w

theorem Flat.acyclic (h : s.Flat) : s.Acyclic := by
  intro v hv
  obtain ⟨w, hvw, -⟩ := TransGen.head'_iff.mp hv
  obtain ⟨u, -, huv⟩ := TransGen.tail'_iff.mp hv
  exact h u v huv hvw.binds

-- Every binding is as it will be.
theorem Flat.apply_eq (h : s.Flat) (t : Ty) : s.apply t = t.subst s.lookupType s.lookupRow := by
  have htypes : s.assigned s.apply = s.lookupType := by
    funext id
    rw [assigned]
    cases ht : s.lookupType id with
    | none => rfl
    | some x => exact congrArg some (apply_of_free fun w hw => h (.type id) w (by rwa [Depends, uses_type ht]))
  have hrows : s.assignedRow s.applyRow = s.lookupRow := by
    funext id
    rw [assignedRow]
    cases hr : s.lookupRow id with
    | none => rfl
    | some x => exact congrArg some (applyRow_of_free fun w hw => h (.row id) w (by rwa [Depends, uses_row hr]))
  rw [h.acyclic.apply_eq, htypes, hrows]

end Substitution

namespace Supply

def Drawn (s s' : Supply) (v : Var) : Prop :=
  ¬ s.Covers v ∧ s'.Covers v

instance (s s' : Supply) (v : Var) : Decidable (s.Drawn s' v) :=
  inferInstanceAs (Decidable (_ ∧ _))

def advance (s : Supply) (types rows : Nat) : Supply :=
  ⟨s.nextType + types, s.nextRow + rows⟩

theorem advance_advance (s : Supply) (t r t' r' : Nat) : (s.advance t r).advance t' r' = s.advance (t + t') (r + r') := by
  simp [advance, Nat.add_assoc]

end Supply

namespace Scheme

variable {scheme : Scheme} {s : Supply}

def Ordered (scheme : Scheme) : Prop :=
  scheme.ty.Ordered ∧ ∀ p ∈ scheme.predicates, p.ty.Ordered

instance (scheme : Scheme) : Decidable scheme.Ordered :=
  inferInstanceAs (Decidable (_ ∧ _))

theorem quantified_of_isMono (h : scheme.isMono = true) : scheme.typeVars = [] ∧ scheme.rowVars = [] := by
  simpa [isMono] using h

section Replacement

def freshTypes (vs : List TypeVar) (next : TypeVarId) : List (TypeVarId × Ty) :=
  (vs.zipIdx next).map fun e => (e.1.id, .var ⟨e.2, e.1.kind⟩)

def freshRows (rs : List RowVarId) (next : RowVarId) : List (RowVarId × Row) :=
  (rs.zipIdx next).map fun e => (e.1, .openRecord [] e.2)

def replacement (scheme : Scheme) (s : Supply) : Substitution :=
  ⟨OrderedMap.ofList (freshTypes scheme.typeVars s.nextType), OrderedMap.ofList (freshRows scheme.rowVars s.nextRow)⟩

def supplyAfter (scheme : Scheme) (s : Supply) : Supply :=
  s.advance scheme.typeVars.length scheme.rowVars.length

theorem lookupType_replacement {id : TypeVarId} {t : Ty} (h : (scheme.replacement s).lookupType id = some t) :
    ∃ v i, (v, i) ∈ scheme.typeVars.zipIdx s.nextType ∧ v.id = id ∧ t = .var ⟨i, v.kind⟩ := by
  obtain ⟨⟨v, i⟩, hmem, heq⟩ := List.mem_map.mp (OrderedMap.mem_of_find?_ofList h)
  obtain ⟨rfl, rfl⟩ := Prod.mk.inj heq
  exact ⟨v, i, hmem, rfl, rfl⟩

theorem lookupRow_replacement {id : RowVarId} {r : Row} (h : (scheme.replacement s).lookupRow id = some r) :
    ∃ i, (id, i) ∈ scheme.rowVars.zipIdx s.nextRow ∧ r = .openRecord [] i := by
  obtain ⟨⟨r, i⟩, hmem, heq⟩ := List.mem_map.mp (OrderedMap.mem_of_find?_ofList h)
  obtain ⟨rfl, rfl⟩ := Prod.mk.inj heq
  exact ⟨i, hmem, rfl⟩

theorem binds_replacement {v : Var} : (scheme.replacement s).Binds v ↔ v ∈ scheme.quantified := by
  cases v with
  | type id =>
      refine OrderedMap.mem_keys_iff.symm.trans (OrderedMap.mem_keys_ofList.trans ?_)
      have hids : (freshTypes scheme.typeVars s.nextType).map Prod.fst = scheme.typeVars.map TypeVar.id := by
        conv_rhs => rw [← List.zipIdx_map_fst s.nextType scheme.typeVars, List.map_map]
        rw [freshTypes, List.map_map]
        rfl
      rw [hids, type_mem_quantified]
  | row id =>
      refine OrderedMap.mem_keys_iff.symm.trans (OrderedMap.mem_keys_ofList.trans ?_)
      have hids : (freshRows scheme.rowVars s.nextRow).map Prod.fst = scheme.rowVars := by
        conv_rhs => rw [← List.zipIdx_map_fst s.nextRow scheme.rowVars]
        rw [freshRows, List.map_map]
        rfl
      rw [hids, row_mem_quantified]

theorem drawn_of_depends {v w : Var} (h : (scheme.replacement s).Depends v w) : s.Drawn (scheme.supplyAfter s) w := by
  cases v with
  | type id =>
      obtain ⟨t, ht⟩ := h.binds
      obtain ⟨v, i, hmem, -, rfl⟩ := lookupType_replacement ht
      rw [Substitution.Depends, Substitution.uses_type ht, Ty.mem_vars_var] at h
      obtain ⟨hle, hlt, -⟩ := List.mem_zipIdx hmem
      exact h ▸ ⟨Nat.not_lt.mpr hle, hlt⟩
  | row id =>
      obtain ⟨r, hr⟩ := h.binds
      obtain ⟨i, hmem, rfl⟩ := lookupRow_replacement hr
      rw [Substitution.Depends, Substitution.uses_row hr] at h
      obtain ⟨hle, hlt, -⟩ := List.mem_zipIdx hmem
      rcases Row.mem_vars.mp h with ⟨f, hf, -⟩ | ⟨_, hw, rfl⟩
      · cases hf
      · exact Option.some.inj hw ▸ ⟨Nat.not_lt.mpr hle, hlt⟩

theorem flat_replacement (h : ∀ v, s.Drawn (scheme.supplyAfter s) v → v ∉ scheme.quantified) : (scheme.replacement s).Flat :=
  fun _ w hw hbound => h w (drawn_of_depends hw) (binds_replacement.mp hbound)

theorem sorted_replacement (scheme : Scheme) (s : Supply) : (scheme.replacement s).Sorted where
  types := OrderedMap.ascending_ofList _
  rows := OrderedMap.ascending_ofList _
  ordered := by
    refine ⟨fun id t ht => ?_, fun id r hr => ?_⟩
    · obtain ⟨v, i, -, -, rfl⟩ := lookupType_replacement ht
      exact fun _ h => absurd h Ty.mem_rows_var
    · obtain ⟨i, -, rfl⟩ := lookupRow_replacement hr
      exact Row.ordered_iff.mpr ⟨.nil, List.forall_mem_nil _⟩

end Replacement

end Scheme

section Runs

def Context.draw (types rows : Nat) (c : Context) : Context :=
  { c with unifier := { c.unifier with supply := c.unifier.supply.advance types rows } }

theorem Context.draw_draw (c : Context) (t r t' r' : Nat) : (c.draw t r).draw t' r' = c.draw (t + t') (r + r') := by
  simp [draw, Supply.advance_advance]

def Predicate.constraint (path : SourcePath) (node : NodeId) (f : Ty → Ty) (p : Predicate) : ClassConstraint :=
  ⟨p.className, f p.ty, path, node, .instantiation⟩

def Scheme.demands (path : SourcePath) (node : NodeId) (f : Ty → Ty) (scheme : Scheme) : List ClassConstraint :=
  if scheme.isMono then [] else scheme.predicates.map (Predicate.constraint path node f)

namespace InferM

variable {c : Context}

theorem ensures_freshTypeRenaming (vs : List TypeVar) (c : Context) :
    Ensures (freshTypeRenaming vs) c fun types c' =>
      types = Scheme.freshTypes vs c.unifier.supply.nextType ∧ c' = c.draw vs.length 0 := by
  induction vs generalizing c with
  | nil => exact ensures_pure ⟨rfl, rfl⟩
  | cons v vs ih =>
      refine Ensures.bind (Q := fun i c' => i = c.unifier.supply.nextType ∧ c' = c.draw 1 0) ⟨rfl, rfl⟩ ?_
      rintro _ _ ⟨rfl, rfl⟩
      refine (ih _).bind ?_
      rintro _ _ ⟨rfl, rfl⟩
      exact ensures_pure ⟨rfl, by rw [Context.draw_draw, Nat.add_comm, List.length_cons]⟩

theorem ensures_freshRowRenaming (rs : List RowVarId) (c : Context) :
    Ensures (freshRowRenaming rs) c fun rows c' =>
      rows = Scheme.freshRows rs c.unifier.supply.nextRow ∧ c' = c.draw 0 rs.length := by
  induction rs generalizing c with
  | nil => exact ensures_pure ⟨rfl, rfl⟩
  | cons r rs ih =>
      refine Ensures.bind (Q := fun i c' => i = c.unifier.supply.nextRow ∧ c' = c.draw 0 1) ⟨rfl, rfl⟩ ?_
      rintro _ _ ⟨rfl, rfl⟩
      refine (ih _).bind ?_
      rintro _ _ ⟨rfl, rfl⟩
      exact ensures_pure ⟨rfl, by rw [Context.draw_draw, Nat.add_comm 1, List.length_cons]⟩

theorem ensures_addPredicates (node : NodeId) (mapping : Substitution) (ps : List Predicate) (c : Context) :
    Ensures (addPredicates node mapping ps) c fun _ c' =>
      c' = c.deferClasses (ps.map (Predicate.constraint c.path node mapping.apply)) := by
  induction ps generalizing c with
  | nil =>
      apply ensures_pure
      rw [List.map_nil, Context.deferClasses, Scopes.append_nil]
  | cons p ps ih =>
      refine ensures_modify ((ih _).mono ?_)
      rintro _ _ rfl
      simp [Context.deferClasses, Context.addClass, Scopes.push, Predicate.constraint]

theorem ensures_instantiate (scheme : Scheme) (node : NodeId) (c : Context) :
    Ensures (instantiate scheme node) c fun t c' =>
      t = (scheme.replacement c.unifier.supply).apply scheme.ty ∧
        c'.unifier = { c.unifier with supply := scheme.supplyAfter c.unifier.supply } ∧
        c'.classes = c.classes.append (scheme.demands c.path node (scheme.replacement c.unifier.supply).apply) := by
  refine ensures_ite (fun hmono => ensures_pure ?_) fun hmono => ?_
  · obtain ⟨htypes, hrows⟩ := Scheme.quantified_of_isMono hmono
    have hfree : (scheme.replacement c.unifier.supply).apply scheme.ty = scheme.ty :=
      Substitution.apply_of_free fun v _ hv => by simp [Scheme.binds_replacement, Scheme.quantified, htypes, hrows] at hv
    refine ⟨hfree.symm, ?_, ?_⟩
    · rw [Scheme.supplyAfter, htypes, hrows]
      rfl
    · rw [Scheme.demands, if_pos hmono, Scopes.append_nil]
  · refine (ensures_freshTypeRenaming _ c).bind ?_
    rintro _ _ ⟨rfl, rfl⟩
    refine (ensures_freshRowRenaming _ _).bind ?_
    rintro _ _ ⟨rfl, rfl⟩
    refine (ensures_addPredicates node _ _ _).bind ?_
    rintro _ _ rfl
    refine ⟨rfl, ?_, ?_⟩
    · change ((c.draw _ 0).draw 0 _).unifier = _
      rw [Context.draw_draw, Nat.add_zero, Nat.zero_add]
      rfl
    · rw [Scheme.demands, if_neg hmono]
      rfl

end InferM

end Runs

section Commuting

namespace Substitution

variable {s : Substitution} {scheme : Scheme}

theorem Sorted.outside (h : s.Sorted) (scheme : Scheme) : (s.outside scheme).Sorted where
  types := ascending_foldl_erase TypeVar.id scheme.typeVars h.types
  rows := ascending_foldl_erase (fun r => r) scheme.rowVars h.rows
  ordered := h.ordered.of_extends (extends_outside s scheme)

theorem depends_outside {v w : Var} (h : (s.outside scheme).Depends v w) : v ∉ scheme.quantified ∧ s.Depends v w :=
  ⟨(binds_outside.mp h.binds).1, (extends_outside s scheme).depends h⟩

section Closed

variable (h : s.Closed fun v => v ∉ scheme.quantified) (hs : s.Acyclic)

include h hs

-- Where nothing quantified occurs, the bindings of what is quantified are never met.
theorem Closed.apply_outside (hord : s.Ordered) {t : Ty} (ht : t.Ordered) (hfree : ∀ v ∈ t.vars, v ∉ scheme.quantified) :
    (s.outside scheme).apply t = s.apply t := by
  have hext := extends_outside s scheme
  have hclosed : (s.outside scheme).Closed fun v => v ∉ scheme.quantified := fun v w hv hvw => h v w hv (hext.depends hvw)
  have hsame : s.apply ((s.outside scheme).apply t) = (s.outside scheme).apply t :=
    apply_of_free fun w hw hbound => (hext.acyclic hs).free_of_apply hw (binds_outside.mpr ⟨hclosed.apply hfree w hw, hbound⟩)
  rw [← hsame]
  exact hs.apply_absorbed hord hext.honours (hord.of_extends hext) ht

theorem Closed.apply_replacement (hsorted : s.Sorted) {sup : Supply}
    (hdrawn : ∀ v, sup.Drawn (scheme.supplyAfter sup) v → ¬ s.Binds v ∧ v ∉ scheme.quantified) {t : Ty} (ht : t.Ordered) :
    (scheme.replacement sup).apply ((s.outside scheme).apply t) = s.apply ((scheme.replacement sup).apply t) := by
  have hflat := Scheme.flat_replacement fun v hv => (hdrawn v hv).2
  have hfirst : (scheme.replacement sup).Before (s.outside scheme) := by
    refine ⟨fun v hm hs' => ?_, fun v w hvw hm => ?_⟩
    · exact (binds_outside.mp hs').1 (Scheme.binds_replacement.mp hm)
    · obtain ⟨hv, hvw⟩ := depends_outside hvw
      exact h v w hv hvw (Scheme.binds_replacement.mp hm)
  have hsecond : (s.outside scheme).Before (scheme.replacement sup) := by
    refine ⟨fun v hs' hm => hfirst.disjoint v hm hs', fun v w hvw hs' => ?_⟩
    exact (hdrawn w (Scheme.drawn_of_depends hvw)).1 (binds_outside.mp hs').2
  have hsorted' := Scheme.sorted_replacement scheme sup
  have hacyclic := (extends_outside s scheme).acyclic hs
  rw [hfirst.apply_comm hsecond hsorted' (hsorted.outside scheme) hflat.acyclic hacyclic ht]
  refine h.apply_outside hs hsorted.ordered (hsorted'.ordered.apply ht) fun v hv hq => ?_
  exact hflat.acyclic.free_of_apply hv (Scheme.binds_replacement.mpr hq)

end Closed

end Substitution

theorem Scheme.demands_applyScheme {s : Substitution} {scheme : Scheme} {f g : Ty → Ty}
    (h : ∀ p ∈ scheme.predicates, f ((s.outside scheme).apply p.ty) = s.apply (g p.ty)) (path : SourcePath) (node : NodeId) :
    (s.applyScheme scheme).demands path node f = (scheme.demands path node g).map (ClassConstraint.mapTy s.apply) := by
  have hmono : (s.applyScheme scheme).isMono = scheme.isMono := rfl
  rw [demands, demands, hmono]
  split
  · rfl
  · change (scheme.predicates.map (s.outside scheme).applyPredicate).map _ = _
    rw [List.map_map, List.map_map]
    exact List.map_congr_left fun p hp => congrArg (ClassConstraint.mk p.className · path node .instantiation) (h p hp)

namespace InferM

theorem instantiate_applyScheme {s : Substitution} {scheme : Scheme} (hs : s.Acyclic) (hsorted : s.Sorted) (hscheme : scheme.Ordered)
    (h : s.Closed fun v => v ∉ scheme.quantified) (node : NodeId) {c : Context}
    (hdrawn : ∀ v, c.unifier.supply.Drawn ((instantiate scheme node).run c).2.unifier.supply v → ¬ s.Binds v ∧ v ∉ scheme.quantified) :
    ((instantiate (s.applyScheme scheme) node).run c).1 = s.apply ((instantiate scheme node).run c).1 ∧
      ((instantiate (s.applyScheme scheme) node).run c).2.unifier = ((instantiate scheme node).run c).2.unifier ∧
      ∃ ks, ((instantiate scheme node).run c).2.classes = c.classes.append ks ∧
        ((instantiate (s.applyScheme scheme) node).run c).2.classes = c.classes.append (ks.map (ClassConstraint.mapTy s.apply)) := by
  obtain ⟨hty, hunifier, hclasses⟩ := ensures_instantiate scheme node c
  obtain ⟨hty', hunifier', hclasses'⟩ := ensures_instantiate (s.applyScheme scheme) node c
  rw [hunifier] at hdrawn
  have hcomm {t : Ty} (ht : t.Ordered) := h.apply_replacement hs hsorted hdrawn ht
  refine ⟨?_, hunifier'.trans hunifier.symm, _, hclasses, hclasses'.trans ?_⟩
  · rw [hty, hty']
    exact hcomm hscheme.1
  · exact congrArg _ (Scheme.demands_applyScheme (fun p hp => hcomm (hscheme.2 p hp)) c.path node)

theorem instantiate_applyScheme_shadowed :
    let s := (((Substitution.empty.bindType 0 .int).bindType 1 (.list (.ofVar 2))).bindRow 0 (.closedRecord [])).bindRow 1
      (.openEffects ["Log"] 2)
    let scheme : Scheme := ⟨[.star 0], [0], [⟨"Eq", .ofVar 0⟩, ⟨"Show", .ofVar 1⟩],
      .fn [.ofVar 0, .ofVar 1] (Effects.opened ["IO"] 1) (.record (.openRecord [("a", .ofVar 0)] 0))⟩
    let c := Context.ofSupply ⟨10, 10⟩
    (s.Acyclic ∧ s.Sorted ∧ scheme.Ordered ∧ s.Closed fun v => v ∉ scheme.quantified) ∧
      (((instantiate (s.applyScheme scheme) 0).run c).1 = s.apply ((instantiate scheme 0).run c).1 ∧
        ((instantiate (s.applyScheme scheme) 0).run c).2.unifier = ((instantiate scheme 0).run c).2.unifier ∧
        ∃ ks, ((instantiate scheme 0).run c).2.classes = c.classes.append ks ∧
          ((instantiate (s.applyScheme scheme) 0).run c).2.classes = c.classes.append (ks.map (ClassConstraint.mapTy s.apply))) ∧
      s.apply ((instantiate scheme 0).run c).1 =
        .fn [.ofVar 10, .list (.ofVar 2)] (Effects.opened ["IO", "Log"] 2) (.record (.openRecord [("a", .ofVar 10)] 10)) := by
  intro s scheme c
  have hacyclic : s.Acyclic :=
    Substitution.Ranked.acyclic (show s.Ranked (fun v => match v with | .type 1 => 1 | .row 1 => 1 | _ => 0) by decide)
  have hsorted : s.Sorted :=
    (((Substitution.sorted_empty.bindType (by decide)).bindType (by decide)).bindRow (by decide)).bindRow (by decide)
  have hordered : scheme.Ordered := by decide
  have huses : ∀ v ∈ s.domain, v ∉ scheme.quantified → ∀ w ∈ s.uses v, w ∉ scheme.quantified := by decide
  have hclosed : s.Closed fun v => v ∉ scheme.quantified := fun v w hv hvw => huses v (Substitution.mem_domain hvw.binds) hv w hvw
  have hbound : ∀ v ∈ s.domain, c.unifier.supply.Covers v := by decide
  have hquantified : ∀ v ∈ scheme.quantified, c.unifier.supply.Covers v := by decide
  refine ⟨⟨hacyclic, hsorted, hordered, hclosed⟩, instantiate_applyScheme hacyclic hsorted hordered hclosed 0 fun v hv => ?_, by decide⟩
  exact ⟨fun hb => hv.1 (hbound v (Substitution.mem_domain hb)), fun hq => hv.1 (hquantified v hq)⟩

end InferM

end Commuting

end RowTyping
