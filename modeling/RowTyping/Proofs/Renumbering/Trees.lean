import RowTyping.Checker
import RowTyping.Proofs.Renumbering.Substitutions
import RowTyping.Proofs.Typing

namespace RowTyping

structure Retyping where
  ty : Ty → Ty
  effects : Effects → Effects
  scheme : Scheme → Scheme

namespace Retyping

def comp (g f : Retyping) : Retyping :=
  ⟨g.ty ∘ f.ty, g.effects ∘ f.effects, g.scheme ∘ f.scheme⟩

def info (f : Retyping) (i : NodeInfo) : NodeInfo :=
  ⟨i.id, f.ty i.ty, f.effects i.effects⟩

end Retyping

variable (f : Retyping)

namespace TypedPattern

mutual

def retype : TypedPattern → TypedPattern
  | .wildcard id t => .wildcard id (f.ty t)
  | .var id t name => .var id (f.ty t) name
  | .lit id t l => .lit id (f.ty t) l
  | .tuple id t ps => .tuple id (f.ty t) (retypeAll ps)
  | .list id t ps rest => .list id (f.ty t) (retypeAll ps) (retypeRest rest)
  | .record id t fs o => .record id (f.ty t) (retypeFields fs) o
termination_by structural p => p

def retypeAll : List TypedPattern → List TypedPattern
  | [] => []
  | p :: ps => retype p :: retypeAll ps
termination_by structural ps => ps

def retypeRest : Option TypedPattern → Option TypedPattern
  | none => none
  | some p => some (retype p)
termination_by structural p => p

def retypeFields : List (String × TypedPattern) → List (String × TypedPattern)
  | [] => []
  | (name, p) :: fs => (name, retype p) :: retypeFields fs
termination_by structural fs => fs

end

theorem retypeAll_eq (ps : List TypedPattern) : retypeAll f ps = ps.map (retype f) := by
  induction ps with
  | nil => rfl
  | cons p ps ih => rw [retypeAll, ih, List.map_cons]

theorem retypeRest_eq (rest : Option TypedPattern) : retypeRest f rest = rest.map (retype f) := by
  cases rest <;> rfl

theorem retypeFields_eq (fs : List (String × TypedPattern)) : retypeFields f fs = fs.map fun e => (e.1, e.2.retype f) := by
  induction fs with
  | nil => rfl
  | cons e fs ih => rw [retypeFields, ih, List.map_cons]

variable {f} {g : Retyping}

mutual

theorem retype_comp : ∀ p : TypedPattern, (p.retype f).retype g = p.retype (g.comp f)
  | .wildcard _ _ => rfl
  | .var _ _ _ => rfl
  | .lit _ _ _ => rfl
  | .tuple id _ ps => congrArg (tuple id _) (retypeAll_comp ps)
  | .list id _ ps rest => congrArg₂ (list id _) (retypeAll_comp ps) (retypeRest_comp rest)
  | .record id _ fs o => congrArg (record id _ · o) (retypeFields_comp fs)

theorem retypeAll_comp : ∀ ps, retypeAll g (retypeAll f ps) = retypeAll (g.comp f) ps
  | [] => rfl
  | p :: ps => congrArg₂ List.cons (retype_comp p) (retypeAll_comp ps)

theorem retypeRest_comp : ∀ rest, retypeRest g (retypeRest f rest) = retypeRest (g.comp f) rest
  | none => rfl
  | some p => congrArg some (retype_comp p)

theorem retypeFields_comp : ∀ fs, retypeFields g (retypeFields f fs) = retypeFields (g.comp f) fs
  | [] => rfl
  | (name, p) :: fs => congrArg₂ (fun p fs => (name, p) :: fs) (retype_comp p) (retypeFields_comp fs)

end

end TypedPattern

namespace TypedExpr

mutual

def retype : TypedExpr → TypedExpr
  | .lit i l => .lit (f.info i) l
  | .var i name => .var (f.info i) name
  | .lambda i params body => .lambda (f.info i) (params.map fun p => (p.1, f.ty p.2)) (retype body)
  | .app i func args => .app (f.info i) (retype func) (retypeAll args)
  | .letIn i name scheme value body => .letIn (f.info i) name (f.scheme scheme) (retype value) (retype body)
  | .letRec i bindings body => .letRec (f.info i) (retypeBindings bindings) (retype body)
  | .cond i c t e => .cond (f.info i) (retype c) (retype t) (retype e)
  | .binary i op l r => .binary (f.info i) op (retype l) (retype r)
  | .concat i kind l r => .concat (f.info i) kind (retype l) (retype r)
  | .unary i op operand => .unary (f.info i) op (retype operand)
  | .record i fs => .record (f.info i) (retypeFields fs)
  | .field i base name => .field (f.info i) (retype base) name
  | .update i base fs => .update (f.info i) (retype base) (retypeFields fs)
  | .list i es => .list (f.info i) (retypeAll es)
  | .tuple i es => .tuple (f.info i) (retypeAll es)
  | .caseOf i scrutinee arms => .caseOf (f.info i) (retype scrutinee) (retypeArms arms)
termination_by structural e => e

def retypeAll : List TypedExpr → List TypedExpr
  | [] => []
  | e :: es => retype e :: retypeAll es
termination_by structural es => es

def retypeFields : List (String × TypedExpr) → List (String × TypedExpr)
  | [] => []
  | (name, e) :: fs => (name, retype e) :: retypeFields fs
termination_by structural fs => fs

def retypeBindings : List TypedBinding → List TypedBinding
  | [] => []
  | ⟨name, scheme, e⟩ :: bs => ⟨name, f.scheme scheme, retype e⟩ :: retypeBindings bs
termination_by structural bs => bs

def retypeArms : List (TypedPattern × TypedExpr) → List (TypedPattern × TypedExpr)
  | [] => []
  | (p, e) :: arms => (p.retype f, retype e) :: retypeArms arms
termination_by structural arms => arms

end

end TypedExpr

def TypedBinding.retype (b : TypedBinding) : TypedBinding :=
  ⟨b.name, f.scheme b.scheme, b.value.retype f⟩

namespace TypedExpr

theorem retypeAll_eq (es : List TypedExpr) : retypeAll f es = es.map (retype f) := by
  induction es with
  | nil => rfl
  | cons e es ih => rw [retypeAll, ih, List.map_cons]

theorem retypeFields_eq (fs : List (String × TypedExpr)) : retypeFields f fs = fs.map fun e => (e.1, e.2.retype f) := by
  induction fs with
  | nil => rfl
  | cons e fs ih => rw [retypeFields, ih, List.map_cons]

theorem retypeBindings_eq (bs : List TypedBinding) : retypeBindings f bs = bs.map (TypedBinding.retype f) := by
  induction bs with
  | nil => rfl
  | cons b bs ih =>
      obtain ⟨name, scheme, value⟩ := b
      rw [retypeBindings, ih, List.map_cons]
      rfl

theorem retypeArms_eq (arms : List (TypedPattern × TypedExpr)) :
    retypeArms f arms = arms.map fun arm => (arm.1.retype f, arm.2.retype f) := by
  induction arms with
  | nil => rfl
  | cons a arms ih => rw [retypeArms, ih, List.map_cons]

theorem induct_children {P : TypedExpr → Prop} (h : ∀ e, (∀ c ∈ e.children, P c) → P e) (e : TypedExpr) : P e :=
  have one {e c : TypedExpr} (he : e.children = [c]) (hc : P c) : P e := h e (he ▸ List.forall_mem_singleton.mpr hc)
  have two {e c c' : TypedExpr} (he : e.children = [c, c']) (hc : P c) (hc' : P c') : P e :=
    h e (he ▸ List.forall_mem_cons.mpr ⟨hc, List.forall_mem_singleton.mpr hc'⟩)
  @TypedExpr.rec P (fun b => P b.value) (fun es => ∀ e ∈ es, P e) (fun bs => ∀ b ∈ bs, P b.value) (fun fs => ∀ f ∈ fs, P f.2)
    (fun arms => ∀ a ∈ arms, P a.2) (fun f => P f.2) (fun a => P a.2)
    (fun _ _ => h _ (List.forall_mem_nil _)) (fun _ _ => h _ (List.forall_mem_nil _)) (fun _ _ _ => one rfl)
    (fun _ _ _ hf has => h _ (List.forall_mem_cons.mpr ⟨hf, has⟩)) (fun _ _ _ _ _ => two rfl)
    (fun _ _ _ hbs hb => h _ (List.forall_mem_append.mpr ⟨List.forall_mem_map.mpr hbs, List.forall_mem_singleton.mpr hb⟩))
    (fun _ _ _ _ hc ht hf => h _ (by simp [children, hc, ht, hf])) (fun _ _ _ _ => two rfl) (fun _ _ _ _ => two rfl)
    (fun _ _ _ => one rfl) (fun _ _ hfs => h _ (List.forall_mem_map.mpr hfs)) (fun _ _ _ => one rfl)
    (fun _ _ _ hb hfs => h _ (List.forall_mem_cons.mpr ⟨hb, List.forall_mem_map.mpr hfs⟩)) (fun _ _ hes => h _ hes)
    (fun _ _ hes => h _ hes) (fun _ _ _ hs harms => h _ (List.forall_mem_cons.mpr ⟨hs, List.forall_mem_map.mpr harms⟩))
    (fun _ _ _ hv => hv) (List.forall_mem_nil _) (fun _ _ he hes => List.forall_mem_cons.mpr ⟨he, hes⟩)
    (List.forall_mem_nil _) (fun _ _ hb hbs => List.forall_mem_cons.mpr ⟨hb, hbs⟩)
    (List.forall_mem_nil _) (fun _ _ hf hfs => List.forall_mem_cons.mpr ⟨hf, hfs⟩)
    (List.forall_mem_nil _) (fun _ _ ha harms => List.forall_mem_cons.mpr ⟨ha, harms⟩) (fun _ _ he => he) (fun _ _ he => he) e

variable {f} {g : Retyping}

theorem info_retype (e : TypedExpr) : (e.retype f).info = f.info e.info := by
  cases e <;> rfl

theorem children_retype (e : TypedExpr) : (e.retype f).children = e.children.map (retype f) := by
  cases e <;> simp [retype, children, retypeAll_eq, retypeFields_eq, retypeBindings_eq, retypeArms_eq, TypedBinding.retype]

theorem nodes_retype (e : TypedExpr) : (e.retype f).nodes = e.nodes.map (retype f) := by
  induction e using induct_children with
  | h e ih =>
      rw [nodes_eq, nodes_eq, children_retype, List.flatMap_map, List.map_cons, List.map_flatMap, List.flatMap_congr ih]

mutual

theorem retype_comp : ∀ e : TypedExpr, (e.retype f).retype g = e.retype (g.comp f)
  | .lit _ _ => rfl
  | .var _ _ => rfl
  | .lambda i params body => congrArg₂ (lambda _) (List.map_map ..) (retype_comp body)
  | .app i func args => congrArg₂ (app _) (retype_comp func) (retypeAll_comp args)
  | .letIn i name scheme value body => congrArg₂ (letIn _ name _) (retype_comp value) (retype_comp body)
  | .letRec i bindings body => congrArg₂ (letRec _) (retypeBindings_comp bindings) (retype_comp body)
  | .cond i c t e => by
      change cond _ _ _ _ = cond _ _ _ _
      rw [retype_comp c, retype_comp t, retype_comp e]
      rfl
  | .binary i op l r => congrArg₂ (binary _ op) (retype_comp l) (retype_comp r)
  | .concat i kind l r => congrArg₂ (concat _ kind) (retype_comp l) (retype_comp r)
  | .unary i op operand => congrArg (unary _ op) (retype_comp operand)
  | .record i fs => congrArg (record _) (retypeFields_comp fs)
  | .field i base name => congrArg (field _ · name) (retype_comp base)
  | .update i base fs => congrArg₂ (update _) (retype_comp base) (retypeFields_comp fs)
  | .list i es => congrArg (list _) (retypeAll_comp es)
  | .tuple i es => congrArg (tuple _) (retypeAll_comp es)
  | .caseOf i scrutinee arms => congrArg₂ (caseOf _) (retype_comp scrutinee) (retypeArms_comp arms)

theorem retypeAll_comp : ∀ es, retypeAll g (retypeAll f es) = retypeAll (g.comp f) es
  | [] => rfl
  | e :: es => congrArg₂ List.cons (retype_comp e) (retypeAll_comp es)

theorem retypeFields_comp : ∀ fs, retypeFields g (retypeFields f fs) = retypeFields (g.comp f) fs
  | [] => rfl
  | (name, e) :: fs => congrArg₂ (fun e fs => (name, e) :: fs) (retype_comp e) (retypeFields_comp fs)

theorem retypeBindings_comp : ∀ bs, retypeBindings g (retypeBindings f bs) = retypeBindings (g.comp f) bs
  | [] => rfl
  | ⟨name, _, e⟩ :: bs => congrArg₂ (fun e bs => TypedBinding.mk name _ e :: bs) (retype_comp e) (retypeBindings_comp bs)

theorem retypeArms_comp : ∀ arms, retypeArms g (retypeArms f arms) = retypeArms (g.comp f) arms
  | [] => rfl
  | (p, e) :: arms => by
      change (_, _) :: _ = (_, _) :: _
      rw [p.retype_comp, retype_comp e, retypeArms_comp arms]

end

end TypedExpr

namespace TypedBinding

variable {f} {g : Retyping}

theorem retype_comp (b : TypedBinding) : (b.retype f).retype g = b.retype (g.comp f) :=
  congrArg (mk b.name _) b.value.retype_comp

end TypedBinding

namespace TypedDecl

def retype : TypedDecl → TypedDecl
  | .bind id name scheme value => .bind id name (f.scheme scheme) (value.retype f)
  | .bindRec id bindings => .bindRec id (bindings.map (TypedBinding.retype f))
  | .expr e => .expr (e.retype f)

variable {f} {g : Retyping}

theorem retype_comp (d : TypedDecl) : (d.retype f).retype g = d.retype (g.comp f) := by
  cases d with
  | bind id name scheme value => exact congrArg (bind id name _) value.retype_comp
  | bindRec id bindings => exact congrArg (bindRec id) (map_map_congr fun b _ => b.retype_comp)
  | expr e => exact congrArg expr e.retype_comp

theorem exprs_retype (d : TypedDecl) : (d.retype f).exprs = d.exprs.map (TypedExpr.retype f) := by
  cases d with
  | bindRec id bindings =>
      rw [retype, exprs, exprs, List.map_map, List.map_map]
      rfl
  | _ => rfl

end TypedDecl

section Applied

namespace Substitution

variable (s : Substitution)

def retyping : Retyping :=
  ⟨s.apply, s.applyEffects, s.applyScheme⟩

mutual

theorem applyPattern_eq_retype : ∀ p, s.applyPattern p = p.retype s.retyping
  | .wildcard _ _ => rfl
  | .var _ _ _ => rfl
  | .lit _ _ _ => rfl
  | .tuple id _ ps => congrArg (TypedPattern.tuple id _) (applyPatterns_eq_retype ps)
  | .list id _ ps rest => congrArg₂ (TypedPattern.list id _) (applyPatterns_eq_retype ps) (applyPatternRest_eq_retype rest)
  | .record id _ fs o => congrArg (TypedPattern.record id _ · o) (applyPatternFields_eq_retype fs)

theorem applyPatterns_eq_retype : ∀ ps, s.applyPatterns ps = TypedPattern.retypeAll s.retyping ps
  | [] => rfl
  | p :: ps => congrArg₂ List.cons (applyPattern_eq_retype p) (applyPatterns_eq_retype ps)

theorem applyPatternRest_eq_retype : ∀ rest, s.applyPatternRest rest = TypedPattern.retypeRest s.retyping rest
  | none => rfl
  | some p => congrArg some (applyPattern_eq_retype p)

theorem applyPatternFields_eq_retype : ∀ fs, s.applyPatternFields fs = TypedPattern.retypeFields s.retyping fs
  | [] => rfl
  | (name, p) :: fs => congrArg₂ (fun p fs => (name, p) :: fs) (applyPattern_eq_retype p) (applyPatternFields_eq_retype fs)

end

mutual

theorem applyExpr_eq_retype : ∀ e, s.applyExpr e = e.retype s.retyping
  | .lit _ _ => rfl
  | .var _ _ => rfl
  | .lambda _ _ body => congrArg (TypedExpr.lambda _ _) (applyExpr_eq_retype body)
  | .app _ func args => congrArg₂ (TypedExpr.app _) (applyExpr_eq_retype func) (applyExprs_eq_retype args)
  | .letIn _ name _ value body => congrArg₂ (TypedExpr.letIn _ name _) (applyExpr_eq_retype value) (applyExpr_eq_retype body)
  | .letRec _ bindings body => congrArg₂ (TypedExpr.letRec _) (applyBindings_eq_retype bindings) (applyExpr_eq_retype body)
  | .cond _ c t e => by
      rw [applyExpr, TypedExpr.retype, applyExpr_eq_retype c, applyExpr_eq_retype t, applyExpr_eq_retype e]
      rfl
  | .binary _ op l r => congrArg₂ (TypedExpr.binary _ op) (applyExpr_eq_retype l) (applyExpr_eq_retype r)
  | .concat _ kind l r => congrArg₂ (TypedExpr.concat _ kind) (applyExpr_eq_retype l) (applyExpr_eq_retype r)
  | .unary _ op operand => congrArg (TypedExpr.unary _ op) (applyExpr_eq_retype operand)
  | .record _ fs => congrArg (TypedExpr.record _) (applyExprFields_eq_retype fs)
  | .field _ base name => congrArg (TypedExpr.field _ · name) (applyExpr_eq_retype base)
  | .update _ base fs => congrArg₂ (TypedExpr.update _) (applyExpr_eq_retype base) (applyExprFields_eq_retype fs)
  | .list _ es => congrArg (TypedExpr.list _) (applyExprs_eq_retype es)
  | .tuple _ es => congrArg (TypedExpr.tuple _) (applyExprs_eq_retype es)
  | .caseOf _ scrutinee arms => congrArg₂ (TypedExpr.caseOf _) (applyExpr_eq_retype scrutinee) (applyArms_eq_retype arms)

theorem applyExprs_eq_retype : ∀ es, s.applyExprs es = TypedExpr.retypeAll s.retyping es
  | [] => rfl
  | e :: es => congrArg₂ List.cons (applyExpr_eq_retype e) (applyExprs_eq_retype es)

theorem applyExprFields_eq_retype : ∀ fs, s.applyExprFields fs = TypedExpr.retypeFields s.retyping fs
  | [] => rfl
  | (name, e) :: fs => congrArg₂ (fun e fs => (name, e) :: fs) (applyExpr_eq_retype e) (applyExprFields_eq_retype fs)

theorem applyBindings_eq_retype : ∀ bs, s.applyBindings bs = TypedExpr.retypeBindings s.retyping bs
  | [] => rfl
  | ⟨name, scheme, e⟩ :: bs =>
      congrArg₂ (fun e bs => TypedBinding.mk name (s.applyScheme scheme) e :: bs) (applyExpr_eq_retype e) (applyBindings_eq_retype bs)

theorem applyArms_eq_retype : ∀ arms, s.applyArms arms = TypedExpr.retypeArms s.retyping arms
  | [] => rfl
  | (p, e) :: arms => by
      rw [applyArms, TypedExpr.retypeArms, s.applyPattern_eq_retype p, applyExpr_eq_retype e, applyArms_eq_retype arms]

end

theorem applyDecl_eq_retype (d : TypedDecl) : s.applyDecl d = d.retype s.retyping := by
  cases d with
  | bind id name scheme value => exact congrArg (TypedDecl.bind id name _) (s.applyExpr_eq_retype value)
  | bindRec id bindings =>
      rw [applyDecl, applyBindings_eq_retype, TypedExpr.retypeBindings_eq, TypedDecl.retype]
  | expr e => exact congrArg TypedDecl.expr (s.applyExpr_eq_retype e)

end Substitution

end Applied

section Renumbered

def Renumbering.retyping (π : Renumbering) : Retyping :=
  ⟨Ty.renumber π, Effects.renumber π, Scheme.renumber π⟩

def TypedPattern.renumber (π : Renumbering) (p : TypedPattern) : TypedPattern :=
  p.retype π.retyping

def TypedExpr.renumber (π : Renumbering) (e : TypedExpr) : TypedExpr :=
  e.retype π.retyping

def TypedBinding.renumber (π : Renumbering) (b : TypedBinding) : TypedBinding :=
  b.retype π.retyping

def TypedDecl.renumber (π : Renumbering) (d : TypedDecl) : TypedDecl :=
  d.retype π.retyping

variable {π π' : Renumbering}

theorem Renumbering.comp_retyping : π'.retyping.comp π.retyping = (π'.comp π).retyping :=
  congr (congrArg₂ Retyping.mk (funext Ty.renumber_comp) (funext Effects.renumber_comp)) (funext Scheme.renumber_comp)

theorem TypedDecl.renumber_comp (d : TypedDecl) : (d.renumber π).renumber π' = d.renumber (π'.comp π) :=
  d.retype_comp.trans (congrArg (retype · d) Renumbering.comp_retyping)

namespace TypedPattern

theorem ty_renumber (p : TypedPattern) : (p.renumber π).ty = p.ty.renumber π := by
  cases p <;> rfl

theorem id_renumber (p : TypedPattern) : (p.renumber π).id = p.id := by
  cases p <;> rfl

variable (id : NodeId) (t : Ty) (ps : List TypedPattern)

theorem types_renumber : (ps.map (renumber π)).map ty = (ps.map ty).map (Ty.renumber π) :=
  map_map_comm fun p _ => p.ty_renumber

theorem renumber_tuple : (tuple id t ps).renumber π = tuple id (t.renumber π) (ps.map (renumber π)) :=
  congrArg (tuple id _) (retypeAll_eq _ ps)

theorem renumber_list (rest : Option TypedPattern) :
    (list id t ps rest).renumber π = list id (t.renumber π) (ps.map (renumber π)) (rest.map (renumber π)) :=
  congrArg₂ (list id _) (retypeAll_eq _ ps) (retypeRest_eq _ rest)

theorem renumber_record (fs : List (String × TypedPattern)) (isOpen : Bool) :
    (record id t fs isOpen).renumber π = record id (t.renumber π) (OrderedMap.mapValues (renumber π) fs) isOpen :=
  congrArg (record id _ · isOpen) (retypeFields_eq _ fs)

end TypedPattern

namespace TypedExpr

theorem ty_renumber (e : TypedExpr) : (e.renumber π).ty = e.ty.renumber π :=
  congrArg NodeInfo.ty e.info_retype

theorem effects_renumber (e : TypedExpr) : (e.renumber π).effects = e.effects.renumber π :=
  congrArg NodeInfo.effects e.info_retype

theorem id_renumber (e : TypedExpr) : (e.renumber π).id = e.id := by
  cases e <;> rfl

theorem types_renumber (es : List TypedExpr) : (es.map (renumber π)).map ty = (es.map ty).map (Ty.renumber π) :=
  map_map_comm fun e _ => e.ty_renumber

theorem allEffects_renumber (es : List TypedExpr) : (es.map (renumber π)).map effects = (es.map effects).map (Effects.renumber π) :=
  map_map_comm fun e _ => e.effects_renumber

section Nodes

variable (id : NodeId) (t : Ty) (e : Effects)

theorem renumber_app (func : TypedExpr) (args : List TypedExpr) :
    (app ⟨id, t, e⟩ func args).renumber π = app ⟨id, t.renumber π, e.renumber π⟩ (func.renumber π) (args.map (renumber π)) :=
  congrArg (app _ _) (retypeAll_eq _ args)

theorem renumber_letRec (bs : List TypedBinding) (body : TypedExpr) : (letRec ⟨id, t, e⟩ bs body).renumber π =
    letRec ⟨id, t.renumber π, e.renumber π⟩ (bs.map (TypedBinding.renumber π)) (body.renumber π) :=
  congrArg (letRec _ · _) (retypeBindings_eq _ bs)

theorem renumber_record (fs : List (String × TypedExpr)) :
    (record ⟨id, t, e⟩ fs).renumber π = record ⟨id, t.renumber π, e.renumber π⟩ (OrderedMap.mapValues (renumber π) fs) :=
  congrArg (record _) (retypeFields_eq _ fs)

theorem renumber_update (base : TypedExpr) (fs : List (String × TypedExpr)) : (update ⟨id, t, e⟩ base fs).renumber π =
    update ⟨id, t.renumber π, e.renumber π⟩ (base.renumber π) (OrderedMap.mapValues (renumber π) fs) :=
  congrArg (update _ _) (retypeFields_eq _ fs)

theorem renumber_list (es : List TypedExpr) :
    (list ⟨id, t, e⟩ es).renumber π = list ⟨id, t.renumber π, e.renumber π⟩ (es.map (renumber π)) :=
  congrArg (list _) (retypeAll_eq _ es)

theorem renumber_tuple (es : List TypedExpr) :
    (tuple ⟨id, t, e⟩ es).renumber π = tuple ⟨id, t.renumber π, e.renumber π⟩ (es.map (renumber π)) :=
  congrArg (tuple _) (retypeAll_eq _ es)

theorem renumber_caseOf (scrutinee : TypedExpr) (arms : List (TypedPattern × TypedExpr)) :
    (caseOf ⟨id, t, e⟩ scrutinee arms).renumber π = caseOf ⟨id, t.renumber π, e.renumber π⟩ (scrutinee.renumber π)
      (arms.map (Prod.map (TypedPattern.renumber π) (renumber π))) :=
  congrArg (caseOf _ _) (retypeArms_eq _ arms)

end Nodes

theorem operatorMethod?_renumber (e : TypedExpr) : (e.renumber π).operatorMethod? = e.operatorMethod? := by
  cases e <;> rfl

end TypedExpr

theorem TypedDecl.exprs_renumber (d : TypedDecl) : (d.renumber π).exprs = d.exprs.map (TypedExpr.renumber π) :=
  d.exprs_retype

theorem boundSchemes_renumber (d : TypedDecl) :
    Checker.boundSchemes (d.renumber π) = (Checker.boundSchemes d).map fun b => (b.1, b.2.renumber π) := by
  cases d with
  | bindRec id bindings =>
      rw [Checker.boundSchemes, List.map_map]
      exact List.map_map
  | _ => rfl

namespace Substitution

variable (s : Substitution) (hπ : π.Ascends)

include hπ

theorem retyping_renumber : (s.renumber π).retyping.comp π.retyping = π.retyping.comp s.retyping := by
  simp only [Retyping.comp, retyping, Renumbering.retyping, Function.comp_def, apply_renumber s hπ, applyEffects_renumber s hπ,
    applyScheme_renumber s _ hπ]

theorem applyExpr_renumber (e : TypedExpr) : (s.renumber π).applyExpr (e.renumber π) = (s.applyExpr e).renumber π := by
  rw [applyExpr_eq_retype, applyExpr_eq_retype, TypedExpr.renumber, TypedExpr.renumber, TypedExpr.retype_comp,
    TypedExpr.retype_comp, retyping_renumber s hπ]

theorem applyDecl_renumber (d : TypedDecl) : (s.renumber π).applyDecl (d.renumber π) = (s.applyDecl d).renumber π := by
  rw [applyDecl_eq_retype, applyDecl_eq_retype, TypedDecl.renumber, TypedDecl.renumber, TypedDecl.retype_comp,
    TypedDecl.retype_comp, retyping_renumber s hπ]

end Substitution

end Renumbered

end RowTyping
