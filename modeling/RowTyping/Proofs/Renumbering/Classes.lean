import RowTyping.Proofs.Renumbering.Contexts

namespace RowTyping

variable {π : Renumbering}

namespace Ty

theorem head?_renumber (t : Ty) : (t.renumber π).head? = t.head? := by
  suffices h : (∀ t : Ty, (t.renumber π).head? = t.head?) ∧ ∀ _ : Row, True from h.1 t
  apply Ty.induct_rows
  case app =>
    intro t as ht _
    rw [renumber_app, head?, head?, ht]
  case var => exact fun _ => rfl
  case con => exact fun _ => rfl
  case list => exact fun _ _ => rfl
  case tuple => exact fun _ _ => rfl
  case fn => exact fun _ _ _ _ _ _ => rfl
  case record => exact fun _ _ => rfl
  case row => exact fun _ _ _ _ => trivial

theorem renumber_of_ground {t : Ty} (h : t.isGround = true) : t.renumber π = t :=
  renumber_of_fixed fun v hv => absurd hv (isGround_iff.mp h v)

end Ty

namespace Registry

variable (r : Registry) (className : String)

theorem constrainsArguments_renumber (t : Ty) : r.constrainsArguments className (t.renumber π) = r.constrainsArguments className t := by
  rw [constrainsArguments, constrainsArguments, lookup, lookup, Ty.head?_renumber]

theorem reduceVarsAll_eq (ts : List Ty) : r.reduceVarsAll className ts = ts.flatMap (r.reduceVars className) := by
  induction ts with
  | nil => rfl
  | cons t ts ih => rw [reduceVarsAll, ih, List.flatMap_cons]

theorem reduceVars_renumber (t : Ty) : r.reduceVars className (t.renumber π) = (r.reduceVars className t).map π.type := by
  suffices h : (∀ t : Ty, r.reduceVars className (t.renumber π) = (r.reduceVars className t).map π.type) ∧ ∀ _ : Row, True from h.1 t
  have hite (t : Ty) {vs vs' : List TypeVarId} (h : vs' = vs.map π.type) :
      (if r.constrainsArguments className (t.renumber π) then vs' else []) =
        (if r.constrainsArguments className t then vs else []).map π.type := by
    rw [constrainsArguments_renumber, h]
    split <;> rfl
  have hall {ts : List Ty} (h : ∀ t ∈ ts, r.reduceVars className (t.renumber π) = (r.reduceVars className t).map π.type) :
      r.reduceVarsAll className (ts.map (Ty.renumber π)) = (r.reduceVarsAll className ts).map π.type := by
    rw [reduceVarsAll_eq, reduceVarsAll_eq, List.flatMap_map, List.map_flatMap, List.flatMap_congr h]
  apply Ty.induct_rows
  case app =>
    intro t as _ has
    have h := hite (.app t as) (hall has)
    rwa [Ty.renumber_app] at h ⊢
  case list => exact fun a ha => hite (.list a) ha
  case tuple =>
    intro as has
    have h := hite (.tuple as) (hall has)
    rwa [Ty.renumber_tuple] at h ⊢
  case var => exact fun _ => rfl
  case con => exact fun _ => rfl
  case fn => exact fun _ _ _ _ _ _ => rfl
  case record => exact fun _ _ => rfl
  case row => exact fun _ _ _ _ => trivial

end Registry

def VarClasses.renumber (π : Renumbering) (e : VarClasses) : VarClasses :=
  ⟨e.classes, e.first.renumber π⟩

namespace Defaulting

section

variable (hπ : π.Ascends)

include hπ

theorem addVar_renumber (k : ClassConstraint) (m : OrderedMap TypeVarId VarClasses) (v : TypeVarId) :
    addVar (k.renumber π) (m.mapBoth π.type (VarClasses.renumber π)) (π.type v) =
      (addVar k m v).mapBoth π.type (VarClasses.renumber π) := by
  have hentry : ((m.find? v).map (VarClasses.renumber π)).getD ⟨[], k.renumber π⟩ = ((m.find? v).getD ⟨[], k⟩).renumber π := by
    cases m.find? v <;> rfl
  rw [addVar, addVar, OrderedMap.mapBoth_insert (keepsOrder_of_strictMono hπ.type), OrderedMap.find?_mapBoth hπ.type.injective,
    hentry]
  rfl

theorem byVar_renumber (r : Registry) (ks : List ClassConstraint) :
    byVar r (ks.map (ClassConstraint.renumber π)) = (byVar r ks).mapBoth π.type (VarClasses.renumber π) := by
  have hvars (k : ClassConstraint) (vs : List TypeVarId) (m : OrderedMap TypeVarId VarClasses) :
      (vs.map π.type).foldl (addVar (k.renumber π)) (m.mapBoth π.type (VarClasses.renumber π)) =
        (vs.foldl (addVar k) m).mapBoth π.type (VarClasses.renumber π) := by
    induction vs generalizing m with
    | nil => rfl
    | cons v vs ih => rw [List.map_cons, List.foldl_cons, List.foldl_cons, addVar_renumber hπ, ih]
  have hconstraints (m : OrderedMap TypeVarId VarClasses) :
      (ks.map (ClassConstraint.renumber π)).foldl (addConstraint r) (m.mapBoth π.type (VarClasses.renumber π)) =
        (ks.foldl (addConstraint r) m).mapBoth π.type (VarClasses.renumber π) := by
    induction ks generalizing m with
    | nil => rfl
    | cons k ks ih =>
        rw [List.map_cons, List.foldl_cons, List.foldl_cons, ← ih, addConstraint, addConstraint, ← hvars, ← r.reduceVars_renumber]
        rfl
  exact hconstraints []

theorem isCandidate_renumber (monotype : Ty) (envVars : List TypeVarId) (mode : DefaultingMode) (v : TypeVarId) :
    isCandidate (monotype.renumber π) (envVars.map π.type) mode (π.type v) = isCandidate monotype envVars mode v := by
  rw [isCandidate, isCandidate, monotype.typeVars_renumber hπ, contains_map_of_injective hπ.type.injective,
    contains_map_of_injective hπ.type.injective]

end

structure Renders (π : Renumbering) (out out' : DefaultingOutcome) : Prop where
  subst : out'.subst = out.subst.renumber π
  errors : out'.errors = out.errors
  rejected : out'.rejected = out.rejected.map π.type

variable {r : Registry} {out out' : DefaultingOutcome}

theorem Renders.choose (h : Renders π out out') (hπ : π.Ascends) (hdefaults : ∀ t, r.IsDefault t → t.renumber π = t)
    (e : TypeVarId × VarClasses) : Renders π (choose r out e) (Defaulting.choose r out' (π.type e.1, e.2.renumber π)) := by
  have hclasses : (e.2.renumber π).classes = e.2.classes := rfl
  rw [Defaulting.choose, Defaulting.choose, hclasses]
  cases hchoice : r.chooseDefault e.2.classes with
  | ok t =>
      refine ⟨?_, h.errors, h.rejected⟩
      have hbind := out.subst.bindType_renumber hπ e.1 t
      rwa [hdefaults t (Registry.chooseDefault_isDefault hchoice), ← h.subst] at hbind
  | error reason =>
      refine ⟨h.subst, congrArg (· ++ _) h.errors, ?_⟩
      rw [OrderedSet.map_insert (keepsOrder_of_strictMono hπ.type), ← h.rejected]

theorem renders_defaultConstraints (hπ : π.Ascends) (hdefaults : ∀ t, r.IsDefault t → t.renumber π = t) (monotype : Ty)
    (ks : List ClassConstraint) (envVars : List TypeVarId) (mode : DefaultingMode) :
    Renders π (defaultConstraints monotype ks envVars r mode)
      (defaultConstraints (monotype.renumber π) (ks.map (ClassConstraint.renumber π)) (envVars.map π.type) r mode) := by
  have hfold (es : List (TypeVarId × VarClasses)) {out out' : DefaultingOutcome} (h : Renders π out out') :
      Renders π (es.foldl (Defaulting.choose r) out)
        ((es.map fun e => (π.type e.1, e.2.renumber π)).foldl (Defaulting.choose r) out') := by
    induction es generalizing out out' with
    | nil => exact h
    | cons e es ih => exact ih (h.choose hπ hdefaults e)
  rw [defaultConstraints, defaultConstraints, byVar_renumber hπ, OrderedMap.mapBoth, List.filter_map]
  simp only [Function.comp_def, isCandidate_renumber hπ]
  exact hfold _ ⟨rfl, rfl, rfl⟩

end Defaulting

section Quantified

variable (hπ : π.Ascends)

include hπ

theorem attaches_renumber (quantified : List TypeVarId) (k : ClassConstraint) :
    attaches (quantified.map π.type) (k.renumber π) = attaches quantified k := by
  have hvars : (k.renumber π).ty.typeVars = k.ty.typeVars.map π.type := k.ty.typeVars_renumber hπ
  rw [attaches, attaches, hvars, List.isEmpty_map, List.all_map]
  simp only [Function.comp_def, contains_map_of_injective hπ.type.injective]

theorem attached_renumber (quantified : List TypeVarId) (pending : List ClassConstraint) :
    attached (quantified.map π.type) (pending.map (ClassConstraint.renumber π)) =
      (attached quantified pending).map (Predicate.renumber π) := by
  rw [attached, attached, ← eraseDups_map (Predicate.renumber_injective hπ), List.filter_map, List.map_map, List.map_map]
  simp only [Function.comp_def, attaches_renumber hπ]
  rfl

theorem Ty.quantified_renumber (t : Ty) (envVars : List TypeVarId) :
    OrderedSet.diff (t.renumber π).typeVars (envVars.map π.type) = (OrderedSet.diff t.typeVars envVars).map π.type := by
  rw [t.typeVars_renumber hπ]
  exact filter_contains_map hπ.type.injective _ _

theorem Ty.generalize_renumber (t : Ty) (predicates : List Predicate) (envTypeVars : List TypeVarId) (envRowVars : List RowVarId) :
    (t.renumber π).generalize (predicates.map (Predicate.renumber π)) (envTypeVars.map π.type) (envRowVars.map π.row) =
      (t.generalize predicates envTypeVars envRowVars).renumber π := by
  have hrowVars : ((t.rowVarKinds.keys).map π.row).filter (fun r => !(envRowVars.map π.row).contains r) =
      (t.rowVarKinds.keys.filter fun r => !envRowVars.contains r).map π.row :=
    filter_contains_map hπ.row.injective _ _
  rw [generalize, generalize, Scheme.renumber, t.typeVarKinds_renumber hπ, t.rowVarKinds_renumber hπ, OrderedMap.keys_mapBoth,
    hrowVars, OrderedMap.mapBoth, List.filter_map, List.map_map, List.map_map]
  simp only [Function.comp_def, contains_map_of_injective hπ.type.injective]
  rfl

end Quantified

namespace ResolutionTable

variable (t : ResolutionTable)

theorem get_renumber (node : NodeId) : (t.renumber π).get node = (t.get node).map (Resolution.renumber π) := by
  rw [get, get, renumber, mapEntries, OrderedMap.find?_mapValues]
  cases t.find? node <;> rfl

theorem entries_renumber : (t.renumber π).entries = t.entries.map (Resolution.renumber π) := by
  simp [entries, renumber, mapEntries, OrderedMap.values, OrderedMap.mapValues, List.map_flatten, Function.comp_def]

theorem record_renumber (hπ : π.Ascends) {e : Resolution} (he : e.ty.isGround = true) :
    (t.renumber π).record e = (t.record e).renumber π := by
  have hsame (e' : Resolution) : ((e'.renumber π).className == e.className && (e'.renumber π).ty == e.ty) =
      (e'.className == e.className && e'.ty == e.ty) := by
    have hty := (Ty.renumber_injective hπ).beq_eq (a := e'.ty) (b := e.ty)
    rw [Ty.renumber_of_ground he] at hty
    exact congrArg (e'.className == e.className && ·) hty
  have hfixed : e.renumber π = e := by
    rw [Resolution.renumber, Ty.renumber_of_ground he]
  rw [record, record, get_renumber, List.any_map]
  simp only [Function.comp_def, hsame]
  split
  · rfl
  · rw [renumber, mapEntries, renumber, mapEntries, OrderedMap.mapValues_insert, List.map_append, List.map_singleton, hfixed]

theorem apply_renumber (hπ : π.Ascends) (s : Substitution) : (t.renumber π).apply (s.renumber π) = (t.apply s).renumber π := by
  have hentry (e : Resolution) : { e.renumber π with ty := (s.renumber π).apply (e.renumber π).ty } =
      Resolution.renumber π { e with ty := s.apply e.ty } := by
    rw [Resolution.renumber, Resolution.renumber, s.apply_renumber hπ]
  simp only [apply, renumber, mapEntries, OrderedMap.mapValues, List.map_map, Function.comp_def]
  simp only [hentry]

end ResolutionTable

end RowTyping
