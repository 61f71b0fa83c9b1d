import RowTyping.Infer.Pattern
import RowTyping.Proofs.Typing

namespace RowTyping

namespace TypedPattern

mutual

def nodes (p : TypedPattern) : List TypedPattern :=
  p :: match p with
    | .wildcard _ _ => []
    | .var _ _ _ => []
    | .lit _ _ _ => []
    | .tuple _ _ ps => nodesAll ps
    | .list _ _ ps rest => nodesAll ps ++ nodesRest rest
    | .record _ _ fs _ => nodesFields fs
termination_by structural p

def nodesAll : List TypedPattern → List TypedPattern
  | [] => []
  | p :: ps => p.nodes ++ nodesAll ps
termination_by structural ps => ps

def nodesRest : Option TypedPattern → List TypedPattern
  | none => []
  | some p => p.nodes
termination_by structural p => p

def nodesFields : List (String × TypedPattern) → List TypedPattern
  | [] => []
  | (_, p) :: fs => p.nodes ++ nodesFields fs
termination_by structural fs => fs

end

def listed (fs : List (String × TypedPattern)) : OrderedMap Label Ty :=
  OrderedMap.ofList (fs.map fun f => (f.1, f.2.ty))

def Constrains (encoding : RecordEncoding) : TypedPattern → Prop
  | .record _ t fs true => ∃ row, t = .record row ∧ ∀ f ∈ listed fs, row.get? f.1 = some f.2
  | .record _ t fs false => t = encoding.recordType (listed fs)
  | _ => True

theorem mem_nodes_self (p : TypedPattern) : p ∈ p.nodes := by
  cases p <;> exact List.mem_cons_self

theorem nodesAll_eq (ps : List TypedPattern) : nodesAll ps = ps.flatMap nodes := by
  induction ps with
  | nil => rfl
  | cons p ps ih => rw [nodesAll, ih, List.flatMap_cons]

theorem nodesFields_eq (fs : List (String × TypedPattern)) : nodesFields fs = fs.flatMap fun f => f.2.nodes := by
  induction fs with
  | nil => rfl
  | cons f fs ih => rw [nodesFields, ih, List.flatMap_cons]

theorem mem_nodesAll {p : TypedPattern} {ps : List TypedPattern} (h : p ∈ ps) : p ∈ nodesAll ps := by
  rw [nodesAll_eq]
  exact List.mem_flatMap.mpr ⟨p, h, p.mem_nodes_self⟩

theorem mem_nodesFields {f : String × TypedPattern} {fs : List (String × TypedPattern)} (h : f ∈ fs) : f.2 ∈ nodesFields fs := by
  rw [nodesFields_eq]
  exact List.mem_flatMap.mpr ⟨f, h, f.2.mem_nodes_self⟩

end TypedPattern

def TypedExpr.patterns : TypedExpr → List TypedPattern
  | .caseOf _ _ arms => arms.flatMap fun arm => arm.1.nodes
  | _ => []

namespace Substitution

open TypedPattern

variable (s : Substitution)

theorem applyPatternFields_eq (fs : List (String × TypedPattern)) :
    s.applyPatternFields fs = fs.map fun f => (f.1, s.applyPattern f.2) := by
  induction fs with
  | nil => rfl
  | cons f fs ih => rw [applyPatternFields, ih, List.map_cons]

mutual

theorem nodes_applyPattern : ∀ p : TypedPattern, (s.applyPattern p).nodes = p.nodes.map s.applyPattern
  | .wildcard _ _ => rfl
  | .var _ _ _ => rfl
  | .lit _ _ _ => rfl
  | .tuple _ _ ps => by simp [applyPattern, nodes, nodes_applyPatterns ps]
  | .list _ _ ps rest => by simp [applyPattern, nodes, nodes_applyPatterns ps, nodes_applyPatternRest rest]
  | .record _ _ fs _ => by simp [applyPattern, nodes, nodes_applyPatternFields fs]

theorem nodes_applyPatterns : ∀ ps : List TypedPattern, nodesAll (s.applyPatterns ps) = (nodesAll ps).map s.applyPattern
  | [] => rfl
  | p :: ps => by simp [applyPatterns, nodesAll, nodes_applyPattern p, nodes_applyPatterns ps]

theorem nodes_applyPatternRest :
    ∀ p : Option TypedPattern, nodesRest (s.applyPatternRest p) = (nodesRest p).map s.applyPattern
  | none => rfl
  | some p => nodes_applyPattern p

theorem nodes_applyPatternFields :
    ∀ fs : List (String × TypedPattern), nodesFields (s.applyPatternFields fs) = (nodesFields fs).map s.applyPattern
  | [] => rfl
  | (_, p) :: fs => by simp [applyPatternFields, nodesFields, nodes_applyPattern p, nodes_applyPatternFields fs]

end

theorem patterns_applyExpr (e : TypedExpr) : (s.applyExpr e).patterns = e.patterns.map s.applyPattern := by
  cases e with
  | caseOf i scrutinee arms =>
      rw [applyExpr, TypedExpr.patterns, TypedExpr.patterns, applyArms_eq, List.flatMap_map, List.map_flatMap]
      simp only [nodes_applyPattern]
  | _ => rfl

theorem listed_applyPatternFields (fs : List (String × TypedPattern)) :
    listed (s.applyPatternFields fs) = (listed fs).mapValues s.apply := by
  rw [listed, listed, applyPatternFields_eq, OrderedMap.mapValues_ofList, List.map_map, List.map_map]
  simp only [Function.comp_def, ty_applyPattern]

theorem applyRow_closedRecord (fields : OrderedMap Label Ty) :
    s.applyRow (.closedRecord fields) = .closedRecord (fields.mapValues s.apply) := by
  have hfields : Row.closedRecord (fields.mapValues s.apply) = ⟨.recordRow, (OrderedMap.ofList fields).mapValues s.apply, none⟩ := by
    rw [OrderedMap.mapValues_ofList]
    rfl
  rw [hfields]
  unfold applyRow apply
  cases s.depth with
  | zero => exact congrArg (Row.mk .recordRow · none) (List.map_id _).symm
  | succ n => exact Ty.substRow_none_tail rfl

theorem apply_positionalRecord (fields : OrderedMap Label Ty) :
    s.apply (.positionalRecord fields) = .positionalRecord (fields.mapValues s.apply) := by
  have hvalues : (fields.mapValues s.apply).values = fields.values.map s.apply := by
    rw [OrderedMap.values, OrderedMap.mapValues, List.map_map, OrderedMap.values, List.map_map]
    rfl
  rw [Ty.positionalRecord, Ty.positionalRecord, OrderedMap.keys_mapValues, hvalues]
  unfold apply
  cases s.depth with
  | zero => exact congrArg (Ty.app _) (List.map_id _).symm
  | succ n =>
      rw [chase_succ, Ty.subst_app, Ty.subst_con]
      rfl

theorem apply_recordType (encoding : RecordEncoding) (fields : OrderedMap Label Ty) :
    s.apply (encoding.recordType fields) = encoding.recordType (fields.mapValues s.apply) := by
  cases encoding with
  | rows => exact (s.apply_record _).trans (congrArg Ty.record (s.applyRow_closedRecord fields))
  | positional => exact s.apply_positionalRecord fields

theorem constrains_applyPattern {encoding : RecordEncoding} {p : TypedPattern} (h : p.Constrains encoding)
    (hrow : ∀ row, p.ty = .record row → ∀ l t, row.get? l = some t → (s.applyRow row).get? l = some (s.apply t)) :
    (s.applyPattern p).Constrains encoding := by
  cases p with
  | record id t fs isOpen =>
      cases isOpen with
      | true =>
          obtain ⟨row, rfl, hfields⟩ := h
          refine ⟨s.applyRow row, s.apply_record row, ?_⟩
          rw [listed_applyPatternFields]
          exact List.forall_mem_map.mpr fun f hf => hrow row rfl f.1 f.2 (hfields f hf)
      | false =>
          have h : t = encoding.recordType (listed fs) := h
          change s.apply t = encoding.recordType (listed (s.applyPatternFields fs))
          rw [h, apply_recordType, listed_applyPatternFields]
  | _ => trivial

end Substitution

end RowTyping
