import RowTyping.Proofs.Defaulting
import RowTyping.Proofs.Registry.Derivation

namespace RowTyping

namespace OrderedSet

variable {α : Type} [Ord α] {s : OrderedSet α}

theorem insert_insert [Std.ReflOrd α] (a : α) : (s.insert a).insert a = s.insert a := by
  induction s with
  | nil => simp [insert]
  | cons b s ih =>
      rw [insert]
      split
      next => simp [insert]
      next h => rw [insert, h]
      next h => rw [insert, h, ih]

theorem insert_of_lt [Std.OrientedOrd α] {a : α} (h : ∀ b ∈ s, compare b a = .lt) : s.insert a = s ++ [a] := by
  induction s with
  | nil => rfl
  | cons b s ih =>
      rw [List.forall_mem_cons] at h
      rw [insert, Std.OrientedCmp.gt_of_lt h.1, List.cons_append, ih h.2]

end OrderedSet

namespace OrderedMap

variable {κ α : Type} [Ord κ] {m : OrderedMap κ α}

theorem insert_of_lt [Std.OrientedOrd κ] {k : κ} {v : α} (h : ∀ e ∈ m, compare e.1 k = .lt) : m.insert k v = m ++ [(k, v)] := by
  induction m with
  | nil => rfl
  | cons e m ih =>
      rw [List.forall_mem_cons] at h
      rw [insert, Std.OrientedCmp.gt_of_lt h.1, List.cons_append, ih h.2]

theorem Ascending.mem_iff [Std.LawfulEqOrd κ] [BEq κ] [LawfulBEq κ] [DecidableEq κ] (hm : m.Ascending) {e : κ × α} :
    e ∈ m ↔ m.find? e.1 = some e.2 :=
  ⟨hm.find?_of_mem, mem_of_find?⟩

end OrderedMap

namespace Registry

variable {r : Registry} {c : String} {t u : Ty} {v : TypeVarId}

def Reduces (r : Registry) (c : String) (t : Ty) (v : TypeVarId) : Prop :=
  ∃ kind, r.Visits c t (.var ⟨v, kind⟩)

theorem visits_iff :
    r.Visits c t u ↔ u = t ∨ r.constrainsArguments c t = true ∧ ∃ a ∈ t.arguments, r.Visits c a u := by
  constructor
  · rintro (_ | ⟨hi, hconstrains, ha, hu⟩)
    · exact .inl rfl
    · exact .inr ⟨by rw [constrainsArguments, hi]; exact hconstrains, _, ha, hu⟩
  · rintro (rfl | ⟨hconstrains, a, ha, hu⟩)
    · exact .here _
    · obtain ⟨i, hi, hconstrains⟩ := (Option.any_eq_true _ _).mp hconstrains
      exact .argument hi hconstrains ha hu

theorem reduces_iff (h : ∀ kind, Ty.var ⟨v, kind⟩ ≠ t) :
    r.Reduces c t v ↔ r.constrainsArguments c t = true ∧ ∃ a ∈ t.arguments, r.Reduces c a v := by
  constructor
  · rintro ⟨kind, hvisits⟩
    obtain ⟨hconstrains, a, ha, hvisits⟩ := (visits_iff.mp hvisits).resolve_left (h kind)
    exact ⟨hconstrains, a, ha, kind, hvisits⟩
  · rintro ⟨hconstrains, a, ha, kind, hvisits⟩
    exact ⟨kind, visits_iff.mpr (.inr ⟨hconstrains, a, ha, hvisits⟩)⟩

theorem mem_reduceVars_iff (t : Ty) : v ∈ r.reduceVars c t ↔ r.Reduces c t v := by
  suffices h : (∀ t : Ty, v ∈ r.reduceVars c t ↔ r.Reduces c t v) ∧ ∀ _ : Row, True from h.1 t
  have hite {p : Prop} [Decidable p] {vs : List TypeVarId} : (v ∈ if p then vs else []) ↔ p ∧ v ∈ vs := by
    split <;> simp_all
  have hall {ts : List Ty} (h : ∀ t ∈ ts, (v ∈ r.reduceVars c t ↔ r.Reduces c t v)) :
      v ∈ r.reduceVarsAll c ts ↔ ∃ t ∈ ts, r.Reduces c t v :=
    mem_reduceVarsAll.trans (exists_congr fun t => and_congr_right fun ht => h t ht)
  apply Ty.induct_rows
  case var =>
    intro w
    rw [reduceVars, List.mem_singleton]
    constructor
    · rintro rfl
      exact ⟨w.kind, .here _⟩
    · rintro ⟨kind, hvisits⟩
      rcases visits_iff.mp hvisits with hw | ⟨-, a, ha, -⟩
      · cases hw
        rfl
      · cases ha
  case app =>
    intro f as _ has
    rw [reduceVars, hite, hall has]
    exact Iff.symm (reduces_iff fun _ h => by cases h)
  case list =>
    intro a ha
    rw [reduceVars, hite, ha]
    refine .trans (and_congr_right' ?_) (Iff.symm (reduces_iff fun _ h => by cases h))
    simp [Ty.arguments]
  case tuple =>
    intro as has
    rw [reduceVars, hite, hall has]
    exact Iff.symm (reduces_iff fun _ h => by cases h)
  case con | fn | record =>
    intros
    refine .trans ?_ (Iff.symm (reduces_iff fun _ h => by cases h))
    simp [reduceVars, Ty.arguments]
  case row => exact fun _ _ _ _ => trivial

end Registry

namespace Defaulting

variable {r : Registry} {k : ClassConstraint} {ks ks' : List ClassConstraint} {v : TypeVarId}

section Grouping

def constrains (r : Registry) (v : TypeVarId) (k : ClassConstraint) : Bool :=
  (r.reduceVars k.className k.ty).contains v

theorem constrains_iff : constrains r v k = true ↔ r.Reduces k.className k.ty v :=
  List.contains_iff_mem.trans (Registry.mem_reduceVars_iff k.ty)

def classesOn (r : Registry) (ks : List ClassConstraint) (v : TypeVarId) : OrderedSet String :=
  .ofList ((ks.filter (constrains r v)).map ClassConstraint.className)

theorem mem_classesOn {c : String} : c ∈ classesOn r ks v ↔ ∃ k ∈ ks, r.Reduces k.className k.ty v ∧ k.className = c := by
  simp only [classesOn, OrderedSet.mem_ofList, List.mem_map, List.mem_filter, constrains_iff, and_assoc]

theorem classesOn_congr (h : ∀ k, k ∈ ks' ↔ k ∈ ks) : classesOn r ks' v = classesOn r ks v :=
  OrderedSet.eq_of_mem_iff (OrderedSet.ascending_ofList _) (OrderedSet.ascending_ofList _) fun _ => by
    exact mem_classesOn.trans (.trans (by simp only [h]) mem_classesOn.symm)

def enter (k : ClassConstraint) (entry : Option VarClasses) : VarClasses :=
  { entry.getD ⟨[], k⟩ with classes := (entry.getD ⟨[], k⟩).classes.insert k.className }

theorem enter_enter (entry : Option VarClasses) : enter k (some (enter k entry)) = enter k entry := by
  simp only [enter, Option.getD_some, OrderedSet.insert_insert]

theorem find?_addConstraint (m : OrderedMap TypeVarId VarClasses) :
    (addConstraint r m k).find? v = if constrains r v k then some (enter k (m.find? v)) else m.find? v := by
  rw [addConstraint, constrains]
  induction r.reduceVars k.className k.ty using List.reverseRecOn with
  | nil => rfl
  | append_singleton vs w ih =>
      have hadd (m : OrderedMap TypeVarId VarClasses) : addVar k m w = m.insert w (enter k (m.find? w)) := rfl
      rw [List.foldl_append, List.foldl_cons, List.foldl_nil, hadd, OrderedMap.find?_insert]
      by_cases hvw : v = w
      · subst hvw
        have hv : (vs ++ [v]).contains v = true := by simp
        rw [if_pos rfl, if_pos hv, ih]
        split
        · rw [enter_enter]
        · rfl
      · rw [if_neg hvw, ih]
        simp [hvw]

theorem find?_byVar :
    (byVar r ks).find? v = (ks.find? (constrains r v)).map fun k => ⟨classesOn r ks v, k⟩ := by
  induction ks using List.reverseRecOn with
  | nil => rfl
  | append_singleton ks k ih =>
      have hbyVar : byVar r (ks ++ [k]) = addConstraint r (byVar r ks) k := List.foldl_append
      have hclasses : classesOn r (ks ++ [k]) v =
          if constrains r v k then (classesOn r ks v).insert k.className else classesOn r ks v := by
        rw [classesOn, List.filter_append, List.map_append, OrderedSet.ofList, OrderedSet.union, List.foldl_append]
        by_cases hk : constrains r v k = true
        · rw [if_pos hk, List.filter_cons_of_pos hk]
          rfl
        · rw [if_neg hk, List.filter_cons_of_neg hk]
          rfl
      rw [hbyVar, find?_addConstraint, ih, List.find?_append, hclasses]
      by_cases hk : constrains r v k = true
      · rw [if_pos hk, if_pos hk]
        cases hfirst : ks.find? (constrains r v) with
        | none =>
            have hnone : ks.filter (constrains r v) = [] := List.filter_eq_nil_iff.mpr (List.find?_eq_none.mp hfirst)
            simp [hk, enter, classesOn, hnone, OrderedSet.ofList, OrderedSet.union]
        | some first => rfl
      · rw [if_neg hk, if_neg hk, List.find?_cons_of_neg hk, List.find?_nil, Option.or_none]

theorem ascending_byVar : (byVar r ks).Ascending := by
  have hadd (k : ClassConstraint) (vs : List TypeVarId) {m : OrderedMap TypeVarId VarClasses} (hm : m.Ascending) :
      (vs.foldl (addVar k) m).Ascending := by
    induction vs generalizing m with
    | nil => exact hm
    | cons v vs ih => exact ih (OrderedMap.ascending_insert hm v _)
  have hfoldl {m : OrderedMap TypeVarId VarClasses} (hm : m.Ascending) : (ks.foldl (addConstraint r) m).Ascending := by
    induction ks generalizing m with
    | nil => exact hm
    | cons k ks ih => exact ih (hadd k _ hm)
  exact hfoldl List.Pairwise.nil

end Grouping

section Choosing

variable {es : OrderedMap TypeVarId VarClasses} {e : TypeVarId × VarClasses} {out : DefaultingOutcome} {t : Ty}

def binding? (r : Registry) (e : TypeVarId × VarClasses) : Option (TypeVarId × Ty) :=
  (r.chooseDefault e.2.classes).toOption.map (e.1, ·)

def refusal? (r : Registry) (e : TypeVarId × VarClasses) : Option (TypeVarId × Diagnostic) :=
  match r.chooseDefault e.2.classes with
  | .ok _ => none
  | .error reason => some (e.1, reason.diagnostic.located e.2.first.path (some e.2.first.node))

structure Decides (r : Registry) (es : OrderedMap TypeVarId VarClasses) (out : DefaultingOutcome) : Prop where
  types : out.subst.types = es.filterMap (binding? r)
  rows : out.subst.rows = []
  rejected : out.rejected = (es.filterMap (refusal? r)).map Prod.fst
  errors : out.errors = (es.filterMap (refusal? r)).map Prod.snd

theorem key_of_binding? {b : TypeVarId × Ty} (h : binding? r e = some b) : b.1 = e.1 := by
  obtain ⟨t, -, rfl⟩ := Option.map_eq_some_iff.mp h
  rfl

theorem refusal?_eq_some_iff {b : TypeVarId × Diagnostic} : refusal? r e = some b ↔
    ∃ reason, r.chooseDefault e.2.classes = .error reason ∧
      (e.1, reason.diagnostic.located e.2.first.path (some e.2.first.node)) = b := by
  rw [refusal?]
  split
  next h => simp [h]
  next h => simp [h]

theorem Decides.choose (h : Decides r es out) (hes : OrderedMap.Ascending (es ++ [e])) :
    Decides r (es ++ [e]) (choose r out e) := by
  have hlt : ∀ e' ∈ es, compare e'.1 e.1 = .lt := fun e' he' =>
    (List.pairwise_append.mp hes).2.2 e' he' e (List.mem_singleton_self e)
  rw [Defaulting.choose]
  cases hchoice : r.chooseDefault e.2.classes with
  | ok t =>
      have hbinding : binding? r e = some (e.1, t) := by rw [binding?, hchoice]; rfl
      have hrefusal : refusal? r e = none := by rw [refusal?, hchoice]
      have hbelow : ∀ b ∈ out.subst.types, compare b.1 e.1 = .lt := by
        intro b hb
        rw [h.types] at hb
        obtain ⟨e', he', hb⟩ := List.mem_filterMap.mp hb
        exact key_of_binding? hb ▸ hlt e' he'
      refine ⟨?_, h.rows, ?_, ?_⟩
      · rw [List.filterMap_append, List.filterMap_cons_some hbinding, ← h.types]
        exact OrderedMap.insert_of_lt hbelow
      · rw [List.filterMap_append, List.filterMap_cons_none hrefusal, List.filterMap_nil, List.append_nil]
        exact h.rejected
      · rw [List.filterMap_append, List.filterMap_cons_none hrefusal, List.filterMap_nil, List.append_nil]
        exact h.errors
  | error reason =>
      have hbinding : binding? r e = none := by rw [binding?, hchoice]; rfl
      have hrefusal := refusal?_eq_some_iff.mpr ⟨reason, hchoice, rfl⟩
      have hbelow : ∀ v ∈ out.rejected, compare v e.1 = .lt := by
        intro v hv
        rw [h.rejected] at hv
        obtain ⟨b, hb, rfl⟩ := List.mem_map.mp hv
        obtain ⟨e', he', hb⟩ := List.mem_filterMap.mp hb
        obtain ⟨_, -, rfl⟩ := refusal?_eq_some_iff.mp hb
        exact hlt e' he'
      refine ⟨?_, h.rows, ?_, ?_⟩
      · rw [List.filterMap_append, List.filterMap_cons_none hbinding, List.filterMap_nil, List.append_nil]
        exact h.types
      · rw [List.filterMap_append, List.filterMap_cons_some hrefusal, List.map_append, ← h.rejected]
        exact OrderedSet.insert_of_lt hbelow
      · rw [List.filterMap_append, List.filterMap_cons_some hrefusal, List.map_append, ← h.errors]
        rfl

theorem decides_foldl (hes : es.Ascending) : Decides r es (es.foldl (choose r) ⟨.empty, [], [], []⟩) := by
  induction es using List.reverseRecOn with
  | nil => exact ⟨rfl, rfl, rfl, rfl⟩
  | append_singleton es e ih =>
      rw [List.foldl_append]
      exact (ih (List.pairwise_append.mp hes).1).choose hes

theorem Decides.ascending (h : Decides r es out) (hes : es.Ascending) : out.subst.types.Ascending := by
  rw [h.types]
  refine List.Pairwise.filterMap _ (fun e e' hlt b hb b' hb' => ?_) hes
  rw [key_of_binding? hb, key_of_binding? hb']
  exact hlt

theorem Decides.ascending_rejected (h : Decides r es out) (hes : es.Ascending) : OrderedSet.Ascending out.rejected := by
  rw [h.rejected]
  refine List.pairwise_map.mpr (List.Pairwise.filterMap _ (fun e e' hlt b hb b' hb' => ?_) hes)
  obtain ⟨_, -, rfl⟩ := refusal?_eq_some_iff.mp hb
  obtain ⟨_, -, rfl⟩ := refusal?_eq_some_iff.mp hb'
  exact hlt

theorem Decides.lookupType_iff (h : Decides r es out) (hes : es.Ascending) :
    out.subst.lookupType v = some t ↔ ∃ entry, es.find? v = some entry ∧ r.chooseDefault entry.classes = .ok t := by
  rw [Substitution.lookupType, ← (h.ascending hes).mem_iff (e := (v, t)), h.types, List.mem_filterMap]
  constructor
  · rintro ⟨e, he, hb⟩
    obtain ⟨t', ht', heq⟩ := Option.map_eq_some_iff.mp hb
    cases heq
    exact ⟨e.2, hes.find?_of_mem he, by cases hc : r.chooseDefault e.2.classes <;> simp_all [Except.toOption]⟩
  · rintro ⟨entry, hentry, hchoice⟩
    exact ⟨(v, entry), OrderedMap.mem_of_find? hentry, by rw [binding?, hchoice]; rfl⟩

theorem Decides.mem_rejected_iff (h : Decides r es out) (hes : es.Ascending) :
    v ∈ out.rejected ↔ ∃ entry reason, es.find? v = some entry ∧ r.chooseDefault entry.classes = .error reason := by
  rw [h.rejected, List.mem_map]
  constructor
  · rintro ⟨b, hb, rfl⟩
    obtain ⟨e, he, hb⟩ := List.mem_filterMap.mp hb
    obtain ⟨reason, hchoice, rfl⟩ := refusal?_eq_some_iff.mp hb
    exact ⟨e.2, reason, hes.find?_of_mem he, hchoice⟩
  · rintro ⟨entry, reason, hentry, hchoice⟩
    exact ⟨_, List.mem_filterMap.mpr ⟨(v, entry), OrderedMap.mem_of_find? hentry,
      refusal?_eq_some_iff.mpr ⟨reason, hchoice, rfl⟩⟩, rfl⟩

end Choosing

section Outcome

variable {monotype : Ty} {envVars : List TypeVarId} {mode : DefaultingMode} {t : Ty}

theorem isCandidate_iff :
    isCandidate monotype envVars mode v = true ↔ v ∉ envVars ∧ (mode = .boundary → v ∉ monotype.typeVars) := by
  simp [isCandidate, imp_iff_not_or]

def Decided (monotype : Ty) (ks : List ClassConstraint) (envVars : List TypeVarId) (r : Registry) (mode : DefaultingMode)
    (v : TypeVarId) : Prop :=
  (∃ k ∈ ks, r.Reduces k.className k.ty v) ∧ v ∉ envVars ∧ (mode = .boundary → v ∉ monotype.typeVars)

theorem decided_iff : Decided monotype ks envVars r mode v ↔ isCandidate monotype envVars mode v = true ∧
    ∃ k, ks.find? (constrains r v) = some k := by
  simp only [Decided, isCandidate_iff, ← Option.isSome_iff_exists, List.find?_isSome, constrains_iff, and_comm]

def candidates (monotype : Ty) (ks : List ClassConstraint) (envVars : List TypeVarId) (r : Registry) (mode : DefaultingMode) :
    OrderedMap TypeVarId VarClasses :=
  (byVar r ks).filter fun e => isCandidate monotype envVars mode e.1

theorem ascending_candidates : (candidates monotype ks envVars r mode).Ascending :=
  ascending_byVar.filter _

theorem find?_candidates_iff {entry : VarClasses} : (candidates monotype ks envVars r mode).find? v = some entry ↔
    isCandidate monotype envVars mode v = true ∧ ∃ k, ks.find? (constrains r v) = some k ∧ ⟨classesOn r ks v, k⟩ = entry := by
  rw [candidates, OrderedMap.find?_filter ascending_byVar (isCandidate monotype envVars mode), find?_byVar]
  split
  next h => simp [h]
  next h => simp [h]

theorem decides : Decides r (candidates monotype ks envVars r mode) (defaultConstraints monotype ks envVars r mode) :=
  decides_foldl ascending_candidates

theorem lookupType_iff : (defaultConstraints monotype ks envVars r mode).subst.lookupType v = some t ↔
    Decided monotype ks envVars r mode v ∧ r.chooseDefault (classesOn r ks v) = .ok t := by
  rw [decides.lookupType_iff ascending_candidates, decided_iff]
  simp only [find?_candidates_iff]
  constructor
  · rintro ⟨_, ⟨hv, k, hk, rfl⟩, hchoice⟩
    exact ⟨⟨hv, k, hk⟩, hchoice⟩
  · rintro ⟨⟨hv, k, hk⟩, hchoice⟩
    exact ⟨_, ⟨hv, k, hk, rfl⟩, hchoice⟩

theorem mem_rejected_iff : v ∈ (defaultConstraints monotype ks envVars r mode).rejected ↔
    Decided monotype ks envVars r mode v ∧ ∃ reason, r.chooseDefault (classesOn r ks v) = .error reason := by
  rw [decides.mem_rejected_iff ascending_candidates, decided_iff]
  simp only [find?_candidates_iff]
  constructor
  · rintro ⟨_, reason, ⟨hv, k, hk, rfl⟩, hchoice⟩
    exact ⟨⟨hv, k, hk⟩, reason, hchoice⟩
  · rintro ⟨⟨hv, k, hk⟩, reason, hchoice⟩
    exact ⟨_, reason, ⟨hv, k, hk, rfl⟩, hchoice⟩

def Explains (r : Registry) (ks : List ClassConstraint) (v : TypeVarId) (d : Diagnostic) : Prop :=
  ∃ k reason, ks.find? (constrains r v) = some k ∧ r.chooseDefault (classesOn r ks v) = .error reason ∧
    d = reason.diagnostic.located k.path (some k.node)

theorem Explains.category {d : Diagnostic} (h : Explains r ks v d) : d.category = .ambiguousType := by
  obtain ⟨_, reason, -, -, rfl⟩ := h
  cases reason <;> rfl

theorem explains_of_mem {b : TypeVarId × Diagnostic} (hb : b ∈ (candidates monotype ks envVars r mode).filterMap (refusal? r)) :
    Explains r ks b.1 b.2 := by
  obtain ⟨e, he, hb⟩ := List.mem_filterMap.mp hb
  obtain ⟨reason, hchoice, rfl⟩ := refusal?_eq_some_iff.mp hb
  obtain ⟨-, k, hk, hentry⟩ := find?_candidates_iff.mp (ascending_candidates.find?_of_mem he)
  rw [← hentry] at hchoice ⊢
  exact ⟨k, reason, hk, hchoice, rfl⟩

theorem explains : List.Forall₂ (Explains r ks) (defaultConstraints monotype ks envVars r mode).rejected
    (defaultConstraints monotype ks envVars r mode).errors := by
  rw [decides.rejected, decides.errors, List.forall₂_map_left_iff, List.forall₂_map_right_iff, List.forall₂_same]
  exact fun _ => explains_of_mem

theorem exists_explains (hv : v ∈ (defaultConstraints monotype ks envVars r mode).rejected) :
    ∃ d ∈ (defaultConstraints monotype ks envVars r mode).errors, Explains r ks v d := by
  rw [decides.rejected] at hv
  obtain ⟨b, hb, rfl⟩ := List.mem_map.mp hv
  exact ⟨b.2, decides.errors ▸ List.mem_map_of_mem hb, explains_of_mem hb⟩

theorem category_errors {d : Diagnostic} (hd : d ∈ (defaultConstraints monotype ks envVars r mode).errors) :
    d.category = .ambiguousType := by
  rw [decides.errors] at hd
  obtain ⟨b, hb, rfl⟩ := List.mem_map.mp hd
  exact (explains_of_mem hb).category

theorem decided_congr (h : ∀ k, k ∈ ks' ↔ k ∈ ks) :
    Decided monotype ks' envVars r mode v ↔ Decided monotype ks envVars r mode v := by
  simp only [Decided, h]

theorem defaultConstraints_congr (h : ∀ k, k ∈ ks' ↔ k ∈ ks) :
    (defaultConstraints monotype ks' envVars r mode).subst = (defaultConstraints monotype ks envVars r mode).subst ∧
      (defaultConstraints monotype ks' envVars r mode).rejected = (defaultConstraints monotype ks envVars r mode).rejected := by
  constructor
  · refine congr_arg₂ Substitution.mk ?_ (decides.rows.trans decides.rows.symm)
    refine (decides.ascending ascending_candidates).ext (decides.ascending ascending_candidates) fun v => ?_
    refine Option.ext fun t => ?_
    rw [← Substitution.lookupType, ← Substitution.lookupType, lookupType_iff, lookupType_iff, decided_congr h, classesOn_congr h]
  · refine OrderedSet.eq_of_mem_iff (decides.ascending_rejected ascending_candidates)
      (decides.ascending_rejected ascending_candidates) fun v => ?_
    rw [mem_rejected_iff, mem_rejected_iff, decided_congr h, classesOn_congr h]

end Outcome

end Defaulting

open Defaulting in
theorem defaultConstraints_decides (monotype : Ty) (ks : List ClassConstraint) (envVars : List TypeVarId) (r : Registry)
    (mode : DefaultingMode) :
    let out := defaultConstraints monotype ks envVars r mode
    (∀ v, ((∃ t, out.subst.lookupType v = some t) ∨ v ∈ out.rejected) ↔
      (∃ k ∈ ks, r.Reduces k.className k.ty v) ∧ v ∉ envVars ∧ (mode = .boundary → v ∉ monotype.typeVars)) ∧
    (∀ v, ¬ ((∃ t, out.subst.lookupType v = some t) ∧ v ∈ out.rejected)) ∧ out.subst.rows = [] ∧
    out.rejected.Nodup ∧ List.Forall₂ (Explains r ks) out.rejected out.errors ∧
    (∀ ks', (∀ k, k ∈ ks' ↔ k ∈ ks) → (defaultConstraints monotype ks' envVars r mode).subst = out.subst ∧
      (defaultConstraints monotype ks' envVars r mode).rejected = out.rejected) ∧
    (∀ v, v ∉ envVars → v ∉ monotype.typeVars →
      (defaultConstraints monotype ks envVars r .topLevel).subst.lookupType v =
        (defaultConstraints monotype ks envVars r .boundary).subst.lookupType v ∧
      (v ∈ (defaultConstraints monotype ks envVars r .topLevel).rejected ↔
        v ∈ (defaultConstraints monotype ks envVars r .boundary).rejected)) := by
  intro out
  refine ⟨fun v => ?_, ?_, decides.rows, ?_, explains, fun ks' => defaultConstraints_congr, ?_⟩
  · simp only [out, lookupType_iff, mem_rejected_iff, exists_and_left, ← and_or_left]
    apply and_iff_left
    cases hchoice : r.chooseDefault (classesOn r ks v) with
    | ok t => exact .inl ⟨t, rfl⟩
    | error reason => exact .inr ⟨reason, rfl⟩
  · rintro v ⟨⟨t, ht⟩, hrejected⟩
    obtain ⟨-, reason, hreason⟩ := mem_rejected_iff.mp hrejected
    cases (lookupType_iff.mp ht).2.symm.trans hreason
  · refine (decides.ascending_rejected ascending_candidates).imp fun hlt heq => ?_
    rw [heq] at hlt
    simp at hlt
  · intro v henv hmono
    have hdecided : Decided monotype ks envVars r .topLevel v ↔ Decided monotype ks envVars r .boundary v := by
      simp [Decided, henv, hmono]
    refine ⟨Option.ext fun t => ?_, ?_⟩
    · rw [lookupType_iff, lookupType_iff, hdecided]
    · rw [mem_rejected_iff, mem_rejected_iff, hdecided]

end RowTyping
