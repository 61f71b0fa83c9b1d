import Mathlib.Data.List.Forall2
import RowTyping.Typed.Apply
import RowTyping.Proofs.Inference.Effects
import RowTyping.Proofs.Reach

namespace RowTyping

def Literal.type? : Literal → Option Ty
  | .int _ => none
  | .float _ => none
  | .string _ => some .string
  | .bool _ => some .bool
  | .unit => some .unit
  | .bytes _ => some .bytes

namespace BinaryOp

def Typed (op : BinaryOp) (left right result : Ty) : Prop :=
  if op.isLogical then left = .bool ∧ right = .bool ∧ result = .bool
  else left = right ∧ result = if op.isArithmetic then left else .bool

def classes (op : BinaryOp) : List String :=
  if op = .mod then ["Integral"]
  else if op.isArithmetic then ["Num", "Fractional"]
  else if op.isComparison then ["Ord"]
  else if op.isEquality then ["Eq"]
  else []

end BinaryOp

namespace UnaryOp

def Typed : UnaryOp → Ty → Ty → Prop
  | .not, operand, result => operand = .bool ∧ result = .bool
  | .neg, operand, result => operand = result

def classes : UnaryOp → List String
  | .neg => ["Num", "Fractional"]
  | .not => []

end UnaryOp

def ConcatKind.Typed : ConcatKind → Ty → Prop
  | .string, t => t = .string
  | .list, t => ∃ a, t = .list a

namespace TypedExpr

def Rule (v : Ty → Ty) : TypedExpr → Prop
  | .lit i l => ∀ t ∈ l.type?, v i.ty = t
  | .var _ _ => True
  | .lambda i params body => ∃ e, v i.ty = .fn (params.map fun p => v p.2) e (v body.ty)
  | .app i func args => ∃ ps e, v func.ty = .fn ps e (v i.ty) ∧ List.Forall₂ (fun a p => (v a.ty).Supplies p) args ps
  | .letIn i _ _ _ body => v i.ty = v body.ty
  | .letRec i _ body => v i.ty = v body.ty
  | .cond i c t f => v c.ty = .bool ∧ v t.ty = v i.ty ∧ v f.ty = v i.ty
  | .binary i op l r => op ≠ .concat ∧ op.Typed (v l.ty) (v r.ty) (v i.ty)
  | .concat i kind l r => v l.ty = v i.ty ∧ v r.ty = v i.ty ∧ kind.Typed (v i.ty)
  | .unary i op operand => op.Typed (v operand.ty) (v i.ty)
  | .record i fs => v i.ty = .record (.closedRecord (fs.map fun f => (f.1, v f.2.ty))) ∧ (fs.map Prod.fst).Nodup
  | .field i base name => ∃ row, v base.ty = .record row ∧ row.get? name = some (v i.ty)
  | .update i base fs => v i.ty = v base.ty ∧ ∃ row, v base.ty = .record row ∧ ∀ f ∈ fs, row.get? f.1 = some (v f.2.ty)
  | .list i es => ∃ a, v i.ty = .list a ∧ ∀ e ∈ es, v e.ty = a
  | .tuple i es => v i.ty = .tuple (es.map fun e => v e.ty)
  | .caseOf i scrutinee arms => ∀ arm ∈ arms, v arm.1.ty = v scrutinee.ty ∧ v arm.2.ty = v i.ty

def children : TypedExpr → List TypedExpr
  | .lit _ _ => []
  | .var _ _ => []
  | .lambda _ _ body => [body]
  | .app _ func args => func :: args
  | .letIn _ _ _ value body => [value, body]
  | .letRec _ bindings body => bindings.map TypedBinding.value ++ [body]
  | .cond _ c t f => [c, t, f]
  | .binary _ _ l r => [l, r]
  | .concat _ _ l r => [l, r]
  | .unary _ _ operand => [operand]
  | .record _ fs => fs.map Prod.snd
  | .field _ base _ => [base]
  | .update _ base fs => base :: fs.map Prod.snd
  | .list _ es => es
  | .tuple _ es => es
  | .caseOf _ scrutinee arms => scrutinee :: arms.map Prod.snd

def annotations : TypedExpr → List Ty
  | .lambda _ params _ => params.map Prod.snd
  | .caseOf _ _ arms => arms.map fun arm => arm.1.ty
  | _ => []

def group : TypedExpr → List TypedBinding
  | .letIn _ name scheme value _ => [⟨name, scheme, value⟩]
  | .letRec _ bindings _ => bindings
  | _ => []

def dispatch? : TypedExpr → Option (List String × Ty)
  | .binary _ op l _ => if op.classes = [] then none else some (op.classes, l.ty)
  | .unary _ op operand => if op.classes = [] then none else some (op.classes, operand.ty)
  | _ => none

theorem nodesAll_eq (es : List TypedExpr) : nodesAll es = es.flatMap nodes := by
  induction es with
  | nil => rfl
  | cons e es ih => rw [nodesAll, ih, List.flatMap_cons]

theorem nodesFields_eq (fs : List (String × TypedExpr)) : nodesFields fs = (fs.map Prod.snd).flatMap nodes := by
  induction fs with
  | nil => rfl
  | cons f fs ih => rw [nodesFields, ih, List.map_cons, List.flatMap_cons]

theorem nodesBindings_eq (bs : List TypedBinding) : nodesBindings bs = (bs.map TypedBinding.value).flatMap nodes := by
  induction bs with
  | nil => rfl
  | cons b bs ih =>
      obtain ⟨name, scheme, value⟩ := b
      rw [nodesBindings, ih, List.map_cons, List.flatMap_cons]

theorem nodesArms_eq (arms : List (TypedPattern × TypedExpr)) : nodesArms arms = (arms.map Prod.snd).flatMap nodes := by
  induction arms with
  | nil => rfl
  | cons a arms ih => rw [nodesArms, ih, List.map_cons, List.flatMap_cons]

theorem nodes_eq (e : TypedExpr) : e.nodes = e :: e.children.flatMap nodes := by
  cases e <;> simp [nodes, children, nodesAll_eq, nodesFields_eq, nodesBindings_eq, nodesArms_eq]

theorem mem_nodes_self (e : TypedExpr) : e ∈ e.nodes := by
  rw [nodes_eq]
  exact List.mem_cons_self

theorem mem_nodes_iff {e n : TypedExpr} : n ∈ e.nodes ↔ n = e ∨ ∃ c ∈ e.children, n ∈ c.nodes := by
  rw [nodes_eq, List.mem_cons, List.mem_flatMap]

def types (e : TypedExpr) : List Ty :=
  e.ty :: e.children.map ty ++ e.annotations

theorem dispatch?_mem_types {e : TypedExpr} {d : List String × Ty} (h : d ∈ e.dispatch?) : d.2 ∈ e.types := by
  have mem_of {p : Prop} [Decidable p] {d' : List String × Ty} (h : d ∈ if p then none else some d') : d' = d := by
    split at h
    · cases h
    · exact Option.some.inj h
  cases e with
  | binary => exact mem_of h ▸ List.mem_cons_of_mem _ List.mem_cons_self
  | unary => exact mem_of h ▸ List.mem_cons_of_mem _ List.mem_cons_self
  | _ => cases h

theorem Rule.congr {v v' : Ty → Ty} {e : TypedExpr} (h : e.Rule v) (hv : ∀ t ∈ e.types, v t = v' t) : e.Rule v' := by
  have hself : v e.ty = v' e.ty := hv _ List.mem_cons_self
  have hchild (c : TypedExpr) (hc : c ∈ e.children) : v c.ty = v' c.ty :=
    hv _ (List.mem_cons_of_mem _ (List.mem_append_left _ (List.mem_map_of_mem hc)))
  have hannotation (t : Ty) (ht : t ∈ e.annotations) : v t = v' t := hv _ (List.mem_cons_of_mem _ (List.mem_append_right _ ht))
  cases e with
  | lit i l => simpa only [Rule, show v i.ty = v' i.ty from hself] using h
  | var => trivial
  | lambda i params body =>
      have hparams : (params.map fun p => v p.2) = params.map fun p => v' p.2 :=
        List.map_congr_left fun p hp => hannotation p.2 (List.mem_map_of_mem hp)
      simpa only [Rule, hparams, show v i.ty = v' i.ty from hself, hchild body List.mem_cons_self] using h
  | app i func args =>
      obtain ⟨ps, e, hfunc, hargs⟩ := h
      rw [hchild func List.mem_cons_self, show v i.ty = v' i.ty from hself] at hfunc
      have hboth := (List.forall₂_and_left _ _).mpr ⟨fun a ha => hchild a (List.mem_cons_of_mem _ ha), hargs⟩
      exact ⟨ps, e, hfunc, hboth.imp fun a p h => h.1 ▸ h.2⟩
  | letIn i name scheme value body =>
      simpa only [Rule, show v i.ty = v' i.ty from hself, hchild body (by simp [children])] using h
  | letRec i bindings body =>
      simpa only [Rule, show v i.ty = v' i.ty from hself, hchild body (by simp [children])] using h
  | cond i c t f =>
      simpa only [Rule, show v i.ty = v' i.ty from hself, hchild c (by simp [children]), hchild t (by simp [children]),
        hchild f (by simp [children])] using h
  | binary i op l r =>
      simpa only [Rule, show v i.ty = v' i.ty from hself, hchild l (by simp [children]), hchild r (by simp [children])] using h
  | concat i kind l r =>
      simpa only [Rule, show v i.ty = v' i.ty from hself, hchild l (by simp [children]), hchild r (by simp [children])] using h
  | unary i op operand =>
      simpa only [Rule, show v i.ty = v' i.ty from hself, hchild operand List.mem_cons_self] using h
  | record i fs =>
      have hfields : (fs.map fun f => (f.1, v f.2.ty)) = fs.map fun f => (f.1, v' f.2.ty) :=
        List.map_congr_left fun f hf => by rw [hchild f.2 (List.mem_map_of_mem hf)]
      simpa only [Rule, hfields, show v i.ty = v' i.ty from hself] using h
  | field i base name =>
      simpa only [Rule, show v i.ty = v' i.ty from hself, hchild base List.mem_cons_self] using h
  | update i base fs =>
      obtain ⟨hbase, row, hrow, hget⟩ := h
      rw [hchild base List.mem_cons_self] at hbase hrow
      rw [show v i.ty = v' i.ty from hself] at hbase
      exact ⟨hbase, row, hrow, fun f hf => hchild f.2 (List.mem_cons_of_mem _ (List.mem_map_of_mem hf)) ▸ hget f hf⟩
  | list i es =>
      obtain ⟨a, hlist, helems⟩ := h
      exact ⟨a, hself.symm.trans hlist, fun e he => (hchild e he).symm.trans (helems e he)⟩
  | tuple i es =>
      have helems : (es.map fun e => v e.ty) = es.map fun e => v' e.ty := List.map_congr_left hchild
      simpa only [Rule, helems, show v i.ty = v' i.ty from hself] using h
  | caseOf i scrutinee arms =>
      intro arm harm
      obtain ⟨hpattern, hbody⟩ := h arm harm
      rw [hchild scrutinee List.mem_cons_self, hannotation arm.1.ty (List.mem_map_of_mem harm)] at hpattern
      rw [hchild arm.2 (List.mem_cons_of_mem _ (List.mem_map_of_mem harm)), show v i.ty = v' i.ty from hself] at hbody
      exact ⟨hpattern, hbody⟩

end TypedExpr

namespace Substitution

open TypedExpr

variable (s : Substitution)

def applyBinding (b : TypedBinding) : TypedBinding :=
  ⟨b.name, s.applyScheme b.scheme, s.applyExpr b.value⟩

theorem applyExprs_eq (es : List TypedExpr) : s.applyExprs es = es.map s.applyExpr := by
  induction es with
  | nil => rfl
  | cons e es ih => rw [applyExprs, ih, List.map_cons]

theorem applyExprFields_eq (fs : List (String × TypedExpr)) :
    s.applyExprFields fs = fs.map fun f => (f.1, s.applyExpr f.2) := by
  induction fs with
  | nil => rfl
  | cons f fs ih => rw [applyExprFields, ih, List.map_cons]

theorem applyBindings_eq (bs : List TypedBinding) : s.applyBindings bs = bs.map s.applyBinding := by
  induction bs with
  | nil => rfl
  | cons b bs ih =>
      obtain ⟨name, scheme, value⟩ := b
      rw [applyBindings, ih, List.map_cons]
      rfl

theorem applyArms_eq (arms : List (TypedPattern × TypedExpr)) :
    s.applyArms arms = arms.map fun arm => (s.applyPattern arm.1, s.applyExpr arm.2) := by
  induction arms with
  | nil => rfl
  | cons a arms ih => rw [applyArms, ih, List.map_cons]

theorem ty_applyPattern (p : TypedPattern) : (s.applyPattern p).ty = s.apply p.ty := by
  cases p <;> rfl

theorem ty_applyExpr (e : TypedExpr) : (s.applyExpr e).ty = s.apply e.ty := by
  rw [ty, info_applyExpr]
  rfl

theorem id_applyExpr (e : TypedExpr) : (s.applyExpr e).id = e.id := by
  rw [TypedExpr.id, info_applyExpr]
  rfl

theorem children_applyExpr (e : TypedExpr) : (s.applyExpr e).children = e.children.map s.applyExpr := by
  cases e <;> simp [applyExpr, children, applyExprs_eq, applyExprFields_eq, applyBindings_eq, applyArms_eq, applyBinding]

theorem annotations_applyExpr (e : TypedExpr) : (s.applyExpr e).annotations = e.annotations.map s.apply := by
  cases e with
  | lambda => simp [applyExpr, annotations]
  | caseOf => simp [applyExpr, annotations, applyArms_eq, ty_applyPattern]
  | _ => rfl

theorem types_applyExpr (e : TypedExpr) : (s.applyExpr e).types = e.types.map s.apply := by
  rw [TypedExpr.types, children_applyExpr, annotations_applyExpr, ty_applyExpr]
  simp [TypedExpr.types, ty_applyExpr]

theorem group_applyExpr (e : TypedExpr) : (s.applyExpr e).group = e.group.map s.applyBinding := by
  cases e with
  | letRec => simp [applyExpr, group, applyBindings_eq]
  | _ => rfl

theorem dispatch?_applyExpr (e : TypedExpr) :
    (s.applyExpr e).dispatch? = e.dispatch?.map fun d => (d.1, s.apply d.2) := by
  cases e with
  | binary i op l r =>
      rw [applyExpr, dispatch?, dispatch?, ty_applyExpr]
      split <;> rfl
  | unary i op operand =>
      rw [applyExpr, dispatch?, dispatch?, ty_applyExpr]
      split <;> rfl
  | _ => simp [applyExpr, dispatch?]

theorem rule_applyExpr {v : Ty → Ty} {e : TypedExpr} (h : e.Rule fun t => v (s.apply t)) : (s.applyExpr e).Rule v := by
  cases e with
  | app i func args =>
      obtain ⟨ps, e, hfunc, hargs⟩ := h
      refine ⟨ps, e, by rwa [ty_applyExpr], ?_⟩
      rw [applyExprs_eq, List.forall₂_map_left_iff]
      exact hargs.imp fun a p h => by rwa [ty_applyExpr]
  | update i base fs =>
      obtain ⟨hself, row, hrow, hget⟩ := h
      rw [applyExpr, applyExprFields_eq]
      refine ⟨by rwa [ty_applyExpr], row, by rwa [ty_applyExpr], List.forall_mem_map.mpr fun f hf => ?_⟩
      rw [ty_applyExpr]
      exact hget f hf
  | var => trivial
  | caseOf i scrutinee arms =>
      rw [applyExpr, applyArms_eq]
      refine List.forall_mem_map.mpr fun arm harm => ?_
      rw [ty_applyPattern, ty_applyExpr, ty_applyExpr]
      exact h arm harm
  | _ => simpa [applyExpr, Rule, applyExprs_eq, applyExprFields_eq, ty_applyExpr, applyInfo, Function.comp_def] using h

mutual

theorem nodes_applyExpr : ∀ e : TypedExpr, (s.applyExpr e).nodes = e.nodes.map s.applyExpr
  | .lit _ _ => rfl
  | .var _ _ => rfl
  | .lambda _ _ body => by simp [applyExpr, nodes, nodes_applyExpr body]
  | .app _ func args => by simp [applyExpr, nodes, nodes_applyExpr func, nodes_applyExprs args]
  | .letIn _ _ _ value body => by simp [applyExpr, nodes, nodes_applyExpr value, nodes_applyExpr body]
  | .letRec _ bindings body => by simp [applyExpr, nodes, nodes_applyBindings bindings, nodes_applyExpr body]
  | .cond _ c t f => by simp [applyExpr, nodes, nodes_applyExpr c, nodes_applyExpr t, nodes_applyExpr f]
  | .binary _ _ l r => by simp [applyExpr, nodes, nodes_applyExpr l, nodes_applyExpr r]
  | .concat _ _ l r => by simp [applyExpr, nodes, nodes_applyExpr l, nodes_applyExpr r]
  | .unary _ _ operand => by simp [applyExpr, nodes, nodes_applyExpr operand]
  | .record _ fs => by simp [applyExpr, nodes, nodes_applyFields fs]
  | .field _ base _ => by simp [applyExpr, nodes, nodes_applyExpr base]
  | .update _ base fs => by simp [applyExpr, nodes, nodes_applyExpr base, nodes_applyFields fs]
  | .list _ es => by simp [applyExpr, nodes, nodes_applyExprs es]
  | .tuple _ es => by simp [applyExpr, nodes, nodes_applyExprs es]
  | .caseOf _ scrutinee arms => by simp [applyExpr, nodes, nodes_applyExpr scrutinee, nodes_applyArms arms]

theorem nodes_applyExprs : ∀ es : List TypedExpr, nodesAll (s.applyExprs es) = (nodesAll es).map s.applyExpr
  | [] => rfl
  | e :: es => by simp [applyExprs, nodesAll, nodes_applyExpr e, nodes_applyExprs es]

theorem nodes_applyFields :
    ∀ fs : List (String × TypedExpr), nodesFields (s.applyExprFields fs) = (nodesFields fs).map s.applyExpr
  | [] => rfl
  | (_, e) :: fs => by simp [applyExprFields, nodesFields, nodes_applyExpr e, nodes_applyFields fs]

theorem nodes_applyBindings :
    ∀ bs : List TypedBinding, nodesBindings (s.applyBindings bs) = (nodesBindings bs).map s.applyExpr
  | [] => rfl
  | ⟨_, _, e⟩ :: bs => by simp [applyBindings, nodesBindings, nodes_applyExpr e, nodes_applyBindings bs]

theorem nodes_applyArms :
    ∀ arms : List (TypedPattern × TypedExpr), nodesArms (s.applyArms arms) = (nodesArms arms).map s.applyExpr
  | [] => rfl
  | (_, e) :: arms => by simp [applyArms, nodesArms, nodes_applyExpr e, nodes_applyArms arms]

end

end Substitution

end RowTyping
