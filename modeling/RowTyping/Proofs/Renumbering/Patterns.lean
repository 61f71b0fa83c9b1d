import RowTyping.Infer.Pattern
import RowTyping.Proofs.Renumbering.Boundary

namespace RowTyping

variable {π : Renumbering} {r : Registry}

theorem RecordEncoding.recordType_renumber (encoding : RecordEncoding) (fields : OrderedMap Label Ty) :
    encoding.recordType (fields.mapValues (Ty.renumber π)) = (encoding.recordType fields).renumber π := by
  cases encoding with
  | rows => exact congrArg Ty.record (Row.renumber_closedRecord fields).symm
  | positional =>
      simp [recordType, Ty.positionalRecord, OrderedMap.keys, OrderedMap.values, OrderedMap.mapValues, Function.comp_def]

def BoundNames.renumber (π : Renumbering) (bound : BoundNames) : BoundNames :=
  bound.mapValues (Ty.renumber π)

namespace InferM

section Instances

theorem uniform_freshTypeRenaming (vs : List TypeVar) :
    Uniform (fun π => List.map (Prod.map π.type (Ty.renumber π))) fun v : Variant r =>
      freshTypeRenaming (vs.map (TypeVar.renumber v.numbers)) := by
  induction vs with
  | nil => exact uniform_pure (σ := fun π => List.map (Prod.map π.type (Ty.renumber π))) []
  | cons x vs ih =>
      refine uniform_freshTypeVar.bind fun fresh => ?_
      refine ih.bind fun types => ?_
      exact uniform_pure (σ := fun π => List.map (Prod.map π.type (Ty.renumber π))) ((x.id, .var ⟨fresh, x.kind⟩) :: types)

theorem uniform_freshRowRenaming (rs : List RowVarId) :
    Uniform (fun π => List.map (Prod.map π.row (Row.renumber π))) fun v : Variant r =>
      freshRowRenaming (rs.map v.numbers.row) := by
  induction rs with
  | nil => exact uniform_pure (σ := fun π => List.map (Prod.map π.row (Row.renumber π))) []
  | cons x rs ih =>
      refine uniform_freshRow.bind fun fresh => ?_
      refine ih.bind fun rows => ?_
      exact uniform_pure (σ := fun π => List.map (Prod.map π.row (Row.renumber π))) ((x, .openRecord [] fresh) :: rows)

theorem uniform_addPredicates (node : NodeId) (mapping : Substitution) (ps : List Predicate) :
    Uniform plainly fun v : Variant r =>
      addPredicates node (mapping.renumber v.numbers) (ps.map (Predicate.renumber v.numbers)) := by
  simp only [addPredicates, List.forM_eq_forM, List.forM_map]
  refine uniform_forM fun p _ => ?_
  simp only [Predicate.renumber, fun v : Variant r => mapping.apply_renumber v.ascends]
  exact uniform_addClass p.className (mapping.apply p.ty) node .instantiation

theorem uniform_instantiate (scheme : Scheme) (node : NodeId) :
    Uniform Ty.renumber fun v : Variant r => instantiate (scheme.renumber v.numbers) node := by
  simp only [instantiate, Scheme.isMono_renumber]
  refine uniform_ite (fun _ => uniform_pure scheme.ty) fun _ => ?_
  refine (uniform_freshTypeRenaming scheme.typeVars).bind fun types => ?_
  refine (uniform_freshRowRenaming scheme.rowVars).bind fun rows => ?_
  have hmapping (v : Variant r) : Substitution.mk (OrderedMap.ofList (types.map (Prod.map v.numbers.type (Ty.renumber v.numbers))))
      (OrderedMap.ofList (rows.map (Prod.map v.numbers.row (Row.renumber v.numbers)))) =
        (Substitution.mk (OrderedMap.ofList types) (OrderedMap.ofList rows)).renumber v.numbers := by
    rw [Substitution.renumber, OrderedMap.mapBoth_ofList (keepsOrder_of_strictMono v.ascends.type),
      OrderedMap.mapBoth_ofList (keepsOrder_of_strictMono v.ascends.row)]
    rfl
  simp only [hmapping]
  generalize Substitution.mk (OrderedMap.ofList types) (OrderedMap.ofList rows) = mapping
  refine (uniform_addPredicates node mapping scheme.predicates).bind fun _ => ?_
  refine (uniform_note node _ _).bind fun _ => ?_
  exact uniform_pure_of_eq (mapping.apply scheme.ty) fun v => mapping.apply_renumber v.ascends scheme.ty

theorem uniform_literalType (node : NodeId) (l : Literal) : Uniform Ty.renumber fun _ : Variant r => literalType node l := by
  cases l with
  | int n =>
      refine uniform_freshType.bind fun t => ?_
      exact (uniform_addClass "Num" t node .literal).bind fun _ => uniform_pure t
  | float x =>
      refine uniform_freshType.bind fun t => ?_
      exact (uniform_addClass "Fractional" t node .literal).bind fun _ => uniform_pure t
  | string => exact uniform_pure Ty.string
  | bool => exact uniform_pure Ty.bool
  | unit => exact uniform_pure Ty.unit
  | bytes => exact uniform_pure Ty.bytes

end Instances

section Patterns

theorem uniform_bindName (node : NodeId) (bound : BoundNames) (name : String) :
    Uniform (fun π => Prod.map (TypedPattern.renumber π) (BoundNames.renumber π)) fun v : Variant r =>
      bindName node (bound.renumber v.numbers) name := by
  refine uniform_freshType.bind fun t => ?_
  simp only [BoundNames.renumber, OrderedMap.find?_mapValues]
  cases bound.find? name with
  | some earlier =>
      exact (uniform_equate node .patternMatch earlier t).bind fun _ => uniform_pure (TypedPattern.var node t name, bound)
  | none =>
      refine uniform_pure_of_eq (TypedPattern.var node t name, bound.insert name t) fun v => ?_
      rw [← OrderedMap.mapValues_insert]
      rfl

theorem uniform_equatePattern (reason : Reason) (t : Ty) (p : TypedPattern) : Uniform plainly fun v : Variant r =>
    equate (p.renumber v.numbers).id reason (t.renumber v.numbers) (p.renumber v.numbers).ty := by
  simp only [TypedPattern.id_renumber, TypedPattern.ty_renumber]
  exact uniform_equate p.id reason t p.ty

variable {session : Session}

theorem uniform_recordPatternType (fields : List (String × TypedPattern)) (isOpen : Bool) :
    Uniform Ty.renumber fun v : Variant r => recordPatternType (v.session session)
      (OrderedMap.mapValues (TypedPattern.renumber v.numbers) fields) isOpen := by
  have htypes (v : Variant r) : OrderedMap.ofList ((OrderedMap.mapValues (TypedPattern.renumber v.numbers) fields).map fun f => (f.1, f.2.ty)) =
      (OrderedMap.ofList (fields.map fun f => (f.1, f.2.ty))).mapValues (Ty.renumber v.numbers) := by
    rw [OrderedMap.mapValues_ofList]
    exact congrArg _ (map_map_comm fun f _ => congrArg (Prod.mk f.1) f.2.ty_renumber)
  simp only [recordPatternType, htypes, Variant.encoding_session, RecordEncoding.recordType_renumber]
  generalize OrderedMap.ofList (fields.map fun f => (f.1, f.2.ty)) = types
  refine uniform_ite (fun _ => uniform_freshRow.bind fun rest => ?_) fun _ => uniform_pure _
  refine uniform_pure_of_eq (.record (.openRecord types rest)) fun v => ?_
  rw [Ty.renumber_record, Row.renumber_openRecord]
  rfl

mutual

theorem uniform_inferPattern (bound : BoundNames) : ∀ p : Pattern,
    Uniform (fun π => Prod.map (TypedPattern.renumber π) (BoundNames.renumber π)) fun v : Variant r =>
      inferPattern (v.session session) (bound.renumber v.numbers) p
  | .wildcard id => uniform_freshType.bind fun t => uniform_pure (TypedPattern.wildcard id t, bound)
  | .var id name => uniform_bindName id bound name
  | .lit id l => (uniform_literalType id l).bind fun t => uniform_pure (TypedPattern.lit id t l, bound)
  | .tuple id ps =>
      (uniform_inferPatterns bound (fun _ => uniform_pure (σ := plainly) ()) ps).bind fun (ps, bound) =>
        uniform_pure_of_eq (TypedPattern.tuple id (.tuple (ps.map TypedPattern.ty)) ps, bound) fun v => by
          rw [Prod.map_apply, TypedPattern.renumber_tuple, Ty.renumber_tuple, ← TypedPattern.types_renumber]
  | .list id ps rest => by
      refine uniform_freshType.bind fun elem => ?_
      refine (uniform_inferPatterns bound (uniform_equatePattern .listElement elem) ps).bind fun (ps, bound) => ?_
      refine (uniform_inferPatternRest bound (uniform_equatePattern .patternMatch (.list elem)) rest).bind fun (rest, bound) => ?_
      refine uniform_pure_of_eq (TypedPattern.list id (.list elem) ps rest, bound) fun v => ?_
      rw [Prod.map_apply, TypedPattern.renumber_list]
      rfl
  | .record id fs isOpen => by
      refine (uniform_inferPatternFields bound fs).bind fun (fs, bound) => ?_
      refine (uniform_recordPatternType fs isOpen).bind fun t => ?_
      refine uniform_pure_of_eq (TypedPattern.record id t fs isOpen, bound) fun v => ?_
      rw [Prod.map_apply, TypedPattern.renumber_record]

theorem uniform_inferPatterns {after : Variant r → TypedPattern → InferM Unit} (bound : BoundNames)
    (hafter : ∀ p : TypedPattern, Uniform plainly fun v => after v (p.renumber v.numbers)) : ∀ ps : List Pattern,
    Uniform (fun π => Prod.map (List.map (TypedPattern.renumber π)) (BoundNames.renumber π)) fun v : Variant r =>
      inferPatterns (v.session session) (after v) (bound.renumber v.numbers) ps
  | [] => uniform_pure (σ := fun π => Prod.map (List.map (TypedPattern.renumber π)) (BoundNames.renumber π)) ([], bound)
  | p :: ps => by
      refine (uniform_inferPattern bound p).bind fun (p, bound) => ?_
      refine (hafter p).bind fun _ => ?_
      refine (uniform_inferPatterns bound hafter ps).bind fun (ps, bound) => uniform_pure (p :: ps, bound)

theorem uniform_inferPatternRest {after : Variant r → TypedPattern → InferM Unit} (bound : BoundNames)
    (hafter : ∀ p : TypedPattern, Uniform plainly fun v => after v (p.renumber v.numbers)) : ∀ rest : Option Pattern,
    Uniform (fun π => Prod.map (Option.map (TypedPattern.renumber π)) (BoundNames.renumber π)) fun v : Variant r =>
      inferPatternRest (v.session session) (after v) (bound.renumber v.numbers) rest
  | none => uniform_pure (σ := fun π => Prod.map (Option.map (TypedPattern.renumber π)) (BoundNames.renumber π)) (none, bound)
  | some p => by
      refine (uniform_inferPattern bound p).bind fun (p, bound) => ?_
      exact (hafter p).bind fun _ => uniform_pure (some p, bound)

theorem uniform_inferPatternFields (bound : BoundNames) : ∀ fs : List (String × Pattern),
    Uniform (fun π => Prod.map (OrderedMap.mapValues (TypedPattern.renumber π)) (BoundNames.renumber π)) fun v : Variant r =>
      inferPatternFields (v.session session) (bound.renumber v.numbers) fs
  | [] => uniform_pure (σ := fun π => Prod.map (OrderedMap.mapValues (TypedPattern.renumber π)) (BoundNames.renumber π)) ([], bound)
  | (name, p) :: fs => by
      refine (uniform_inferPattern bound p).bind fun (p, bound) => ?_
      exact (uniform_inferPatternFields bound fs).bind fun (fs, bound) => uniform_pure ((name, p) :: fs, bound)

end

end Patterns

end InferM

end RowTyping
