import Mathlib.Order.Lattice
import Mathlib.Order.MinMax
import RowTyping.Effects
import RowTyping.Infer.Boundary
import RowTyping.Proofs.Growth
import RowTyping.Proofs.Renumbering.Types
import RowTyping.Unify.Goal

namespace RowTyping

variable {π : Renumbering}

namespace Occurrence

theorem filterMap_type_id (os : List Occurrence) :
    (os.map (renumber π)).filterMap (fun o => o.type?.map TypeVar.id) =
      (os.filterMap fun o => o.type?.map TypeVar.id).map π.type := by
  rw [List.filterMap_map, List.map_filterMap]
  refine List.filterMap_congr fun o _ => ?_
  cases o <;> rfl

theorem filterMap_tail_id (os : List Occurrence) :
    (os.map (renumber π)).filterMap (fun o => o.tail?.map Prod.fst) =
      (os.filterMap fun o => o.tail?.map Prod.fst).map π.row := by
  rw [List.filterMap_map, List.map_filterMap]
  refine List.filterMap_congr fun o _ => ?_
  cases o <;> rfl

end Occurrence

namespace Ty

section Variables

variable (t : Ty)

theorem vars_renumber : (t.renumber π).vars = t.vars.map (Var.renumber π) := by
  rw [vars, vars, occurrences_renumber, List.map_map, List.map_map]
  refine List.map_congr_left fun o _ => ?_
  cases o <;> rfl

theorem countRowVar_renumber (hπ : π.Ascends) (r : RowVarId) : (t.renumber π).countRowVar (π.row r) = t.countRowVar r := by
  rw [countRowVar_eq, countRowVar_eq, occurrences_renumber, List.countP_map]
  refine List.countP_congr fun o _ => ?_
  cases o with
  | type v => rfl
  | tail r' k => simp [Occurrence.renumber, Occurrence.isTail, Occurrence.tail?, hπ.row.injective.eq_iff]

variable (hπ : π.Ascends)

include hπ

theorem typeVars_renumber : (t.renumber π).typeVars = t.typeVars.map π.type := by
  rw [typeVars_eq, typeVars_eq, occurrences_renumber, Occurrence.filterMap_type_id,
    OrderedSet.map_ofList (keepsOrder_of_strictMono hπ.type)]

theorem rowVars_renumber : (t.renumber π).rowVars = t.rowVars.map π.row := by
  rw [rowVars_eq, rowVars_eq, occurrences_renumber, Occurrence.filterMap_tail_id,
    OrderedSet.map_ofList (keepsOrder_of_strictMono hπ.row)]

theorem typeVarKinds_renumber : (t.renumber π).typeVarKinds = OrderedMap.mapBoth π.type id t.typeVarKinds := by
  rw [typeVarKinds_eq, typeVarKinds_eq, occurrences_renumber, OrderedMap.mapBoth_ofList (keepsOrder_of_strictMono hπ.type),
    List.filterMap_map, List.map_filterMap]
  refine congrArg _ (List.filterMap_congr fun o _ => ?_)
  cases o <;> rfl

theorem rowVarKinds_renumber : (t.renumber π).rowVarKinds = OrderedMap.mapBoth π.row id t.rowVarKinds := by
  rw [rowVarKinds_eq, rowVarKinds_eq, occurrences_renumber, OrderedMap.mapBoth_ofList (keepsOrder_of_strictMono hπ.row),
    List.filterMap_map, List.map_filterMap]
  refine congrArg _ (List.filterMap_congr fun o _ => ?_)
  cases o <;> rfl

theorem isGround_renumber : (t.renumber π).isGround = t.isGround := by
  rw [isGround, isGround, typeVars_renumber t hπ, rowVars_renumber t hπ, List.isEmpty_map, List.isEmpty_map]

end Variables

@[simp]
theorem kind_renumber (t : Ty) : (t.renumber π).kind = t.kind := by
  cases t <;> rfl

@[simp]
theorem isVar_renumber (t : Ty) : (t.renumber π).isVar = t.isVar := by
  cases t <;> rfl

@[simp]
theorem isCon_renumber (t : Ty) (name : String) : (t.renumber π).isCon name = t.isCon name := by
  cases t <;> rfl

@[simp]
theorem positionalLabels?_renumber (t : Ty) : (t.renumber π).positionalLabels? = t.positionalLabels? := by
  cases t with
  | app h as => cases h <;> rfl
  | _ => rfl

theorem arguments_renumber (t : Ty) : (t.renumber π).arguments = t.arguments.map (renumber π) := by
  cases t with
  | app h as => rw [renumber_app, arguments, arguments]
  | tuple as => rw [renumber_tuple, arguments, arguments]
  | _ => rfl

theorem latentTail_renumber (t : Ty) : (t.renumber π).latentTail = t.latentTail.map π.row := by
  cases t with
  | fn ps e r =>
      rw [renumber_fn, latentTail, latentTail]
      cases e with
      | none => rfl
      | some row => exact row.renumber_rest π
  | _ => rfl

end Ty

namespace Row

variable (r r' : Row)

@[simp]
theorem labels_renumber : (r.renumber π).labels = r.labels := by
  rw [labels, labels, renumber_fields, OrderedMap.keys_mapValues]

@[simp]
theorem get?_renumber (l : Label) : (r.renumber π).get? l = (r.get? l).map (Ty.renumber π) := by
  rw [get?, get?, renumber_fields, OrderedMap.find?_mapValues]

@[simp]
theorem has_renumber (l : Label) : (r.renumber π).has l = r.has l := by
  rw [has, has, OrderedMap.contains, OrderedMap.contains, renumber_fields, OrderedMap.find?_mapValues, Option.isSome_map]

@[simp]
theorem isEmpty_renumber : (r.renumber π).isEmpty = r.isEmpty := by
  rw [isEmpty, isEmpty, renumber_fields, OrderedMap.mapValues, List.isEmpty_map]

@[simp]
theorem isClosed_renumber : (r.renumber π).isClosed = r.isClosed := by
  rw [isClosed, isClosed, renumber_rest, Option.isNone_map]

@[simp]
theorem isOpen_renumber : (r.renumber π).isOpen = r.isOpen := by
  rw [isOpen, isOpen, renumber_rest, Option.isSome_map]

theorem only_renumber : (r.renumber π).only (r'.renumber π) = OrderedMap.mapValues (Ty.renumber π) (r.only r') := by
  simp only [only, renumber_fields, OrderedMap.mapValues, List.filter_map, Function.comp_def, has_renumber]

theorem common_renumber : (r.renumber π).common (r'.renumber π) =
    (r.common r').map fun c => (c.1, c.2.1.renumber π, c.2.2.renumber π) := by
  simp only [common, renumber_fields, OrderedMap.mapValues, List.filterMap_map, List.map_filterMap, Function.comp_def,
    get?_renumber, Option.map_map]

theorem vars_renumber : (r.renumber π).vars = r.vars.map (Var.renumber π) :=
  (Ty.record r).vars_renumber

theorem rowVars_renumber (hπ : π.Ascends) : (r.renumber π).rowVars = r.rowVars.map π.row :=
  (Ty.record r).rowVars_renumber hπ

end Row

theorem Row.renumber_closedRecord (fs : List (Label × Ty)) :
    (Row.closedRecord fs).renumber π = .closedRecord (fs.map fun f => (f.1, f.2.renumber π)) := by
  rw [closedRecord, renumber_mk, OrderedMap.mapValues_ofList]
  rfl

theorem Row.renumber_openRecord (fs : List (Label × Ty)) (rest : RowVarId) :
    (Row.openRecord fs rest).renumber π = .openRecord (fs.map fun f => (f.1, f.2.renumber π)) (π.row rest) := by
  rw [openRecord, renumber_mk, OrderedMap.mapValues_ofList]
  rfl

theorem Row.renumber_closedEffects (labels : List Label) : (Row.closedEffects labels).renumber π = .closedEffects labels := by
  rw [closedEffects, renumber_mk, OrderedMap.mapValues_ofList, List.map_map]
  rfl

theorem Row.renumber_openEffects (labels : List Label) (rest : RowVarId) :
    (Row.openEffects labels rest).renumber π = .openEffects labels (π.row rest) := by
  have hfields := congrArg Row.fields (Row.renumber_closedEffects (π := π) labels)
  rw [renumber_fields] at hfields
  rw [openEffects, renumber_mk, hfields]
  rfl

namespace Effects

variable (e e' : Effects)

@[simp]
theorem labels_renumber : (e.renumber π).labels = e.labels := by
  cases e with
  | none => rfl
  | some r => exact r.labels_renumber

@[simp]
theorem tail_renumber : (e.renumber π).tail = e.tail.map π.row := by
  cases e with
  | none => rfl
  | some r => exact r.renumber_rest π

theorem toRow_renumber : (e.renumber π).toRow = e.toRow.renumber π := by
  cases e with
  | none => exact (Row.renumber_closedEffects []).symm
  | some r => rfl

theorem renumber_closed (labels : List Label) : (closed labels).renumber π = closed labels :=
  congrArg some (Row.renumber_closedEffects labels)

theorem renumber_opened (labels : List Label) (rest : RowVarId) :
    (opened labels rest).renumber π = opened labels (π.row rest) :=
  congrArg some (Row.renumber_openEffects labels rest)

theorem subsumed_renumber : (e.renumber π).subsumed (e'.renumber π) = e.subsumed e' := by
  cases e with
  | none => rfl
  | some r =>
      cases e' with
      | none => rfl
      | some r' =>
          change ((r'.renumber π).isOpen || ((r.renumber π).isClosed && (r.renumber π).labels.all (r'.renumber π).has)) = _
          simp only [Row.isOpen_renumber, Row.isClosed_renumber, Row.labels_renumber]
          simp only [subsumed, funext fun l => r'.has_renumber (π := π) l]

theorem normalize_renumber : (e.renumber π).normalize = e.normalize.renumber π := by
  cases e with
  | none => rfl
  | some r =>
      change (if ((r.renumber π).isClosed && (r.renumber π).isEmpty) = true then none else some (r.renumber π)) = _
      rw [Row.isClosed_renumber, Row.isEmpty_renumber]
      simp only [normalize, Option.any_some]
      split <;> rfl

variable (hπ : π.Ascends)

include hπ

theorem unionTail_map (a b : Option RowVarId) : unionTail (a.map π.row) (b.map π.row) = (unionTail a b).map π.row := by
  cases a with
  | none => rfl
  | some r =>
      cases b with
      | none => rfl
      | some r' => exact congrArg some (hπ.row.monotone.map_min).symm

theorem union_renumber : (e.renumber π).union (e'.renumber π) = (e.union e').renumber π := by
  cases e with
  | none => rfl
  | some r =>
      cases e' with
      | none => rfl
      | some r' =>
          apply congrArg some
          rw [Row.renumber_mk, OrderedMap.mapValues_merge, ← unionTail_map hπ]
          simp only [Row.renumber_kind, Row.renumber_fields, Row.renumber_rest]

theorem unionAll_renumber (rows : List Effects) :
    unionAll (rows.map (renumber π)) = (unionAll rows).renumber π := by
  have hfold (e : Effects) : (rows.map (renumber π)).foldl union (e.renumber π) = (rows.foldl union e).renumber π := by
    induction rows generalizing e with
    | nil => rfl
    | cons row rows ih =>
        rw [List.map_cons, List.foldl_cons, List.foldl_cons, union_renumber e row hπ]
        exact ih _
  exact hfold none

end Effects

namespace Ty

theorem latentLabels_renumber_both : (∀ t : Ty, (t.renumber π).latentLabels = t.latentLabels) ∧
    ∀ r : Row, latentLabelsRow (r.renumber π) = latentLabelsRow r := by
  apply Ty.induct_rows
  case var => exact fun v => rfl
  case con => exact fun name => rfl
  case app =>
    intro h as hh has
    rw [renumber_app, latentLabels, latentLabels, hh, latentLabelsAll_eq, latentLabelsAll_eq, List.flatMap_map,
      List.flatMap_congr has]
  case list =>
    intro a ha
    exact ha
  case tuple =>
    intro as has
    rw [renumber_tuple, latentLabels, latentLabels, latentLabelsAll_eq, latentLabelsAll_eq, List.flatMap_map,
      List.flatMap_congr has]
  case fn =>
    intro ps e r hps he hr
    rw [renumber_fn, latentLabels, latentLabels, hr, latentLabelsAll_eq, latentLabelsAll_eq, List.flatMap_map,
      List.flatMap_congr hps, Effects.labels_renumber]
  case record =>
    intro r hr
    exact hr
  case row =>
    intro k fs rest hfs
    rw [Row.renumber_mk, latentLabelsRow, latentLabelsRow, latentLabelsFields_eq, latentLabelsFields_eq, OrderedMap.mapValues,
      List.flatMap_map, List.flatMap_congr hfs]

@[simp]
theorem latentLabels_renumber (t : Ty) : (t.renumber π).latentLabels = t.latentLabels :=
  latentLabels_renumber_both.1 t

theorem height_renumber_both : (∀ t : Ty, (t.renumber π).height = t.height) ∧ ∀ r : Row, (r.renumber π).height = r.height := by
  apply Ty.induct_rows
  case var => exact fun v => rfl
  case con => exact fun name => rfl
  case app =>
    intro f as hf has
    rw [renumber_app, height, height, hf, heightAll_map has]
  case list =>
    intro a ha
    exact congrArg (· + 1) ha
  case tuple =>
    intro as has
    rw [renumber_tuple]
    exact congrArg (· + 1) (heightAll_map has)
  case fn =>
    intro ps e r hps he hr
    have heffects : heightEffects (Effects.renumber π e) = heightEffects e := by
      cases e with
      | none => rfl
      | some row => exact he row rfl
    rw [renumber_fn, height, height, hr, heightAll_map hps, heffects]
  case record =>
    intro r hr
    exact congrArg (· + 1) hr
  case row =>
    intro k fs rest hfs
    rw [Row.height_eq, Row.height_eq, Row.renumber_fields, heightFields_mapValues hfs]

theorem height_renumber (t : Ty) : (t.renumber π).height = t.height :=
  height_renumber_both.1 t

end Ty

theorem Row.height_renumber (r : Row) : (r.renumber π).height = r.height :=
  Ty.height_renumber_both.2 r

end RowTyping
