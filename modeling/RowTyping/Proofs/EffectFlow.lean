import RowTyping.Proofs.EffectRows
import RowTyping.Proofs.Typing

namespace RowTyping

namespace TypedExpr

def evaluated : TypedExpr → List TypedExpr
  | .lambda _ _ _ => []
  | e => e.children

def callee? : TypedExpr → Option TypedExpr
  | .app _ func _ => some func
  | _ => none

def IsFunction : TypedExpr → Prop
  | .lambda _ _ _ => True
  | _ => False

/-- The effects of the node include those of what is evaluated with it, and of the function that it calls. -/
structure Gathers (v : Ty → Ty) (w : Effects → Effects) (e : TypedExpr) : Prop where
  parts : ∀ c ∈ e.evaluated, (w e.effects).Includes (w c.effects)
  call : ∀ func ∈ e.callee?, ∃ ps latent r, v func.ty = .fn ps latent r ∧ (w e.effects).Includes latent

/-- A function with a signature has the declared effects, and its body no others. -/
def Signed (signatures : EffectSignatures) (w : Effects → Effects) : TypedExpr → Prop
  | .lambda i _ body => ∀ names, signatures.find? i.id = some names → (∀ name ∈ names, Effects.isKnown name = true) ∧
      (∃ ps declared r, Effects.elaborate names = .ok declared ∧ i.ty = .fn ps declared r) ∧ (w body.effects).BoundedBy names
  | _ => True

def rows (e : TypedExpr) : List Effects :=
  e.effects :: e.children.map effects

theorem evaluated_subset (e : TypedExpr) : ∀ c ∈ e.evaluated, c ∈ e.children := by
  cases e with
  | lambda => exact nofun
  | _ => exact fun _ h => h

theorem callee?_mem_children {e func : TypedExpr} (h : func ∈ e.callee?) : func ∈ e.children := by
  cases e with
  | app => exact Option.some.inj h ▸ List.mem_cons_self
  | _ => cases h

theorem signed_of_not_function {signatures : EffectSignatures} {w : Effects → Effects} {e : TypedExpr} (h : ¬ e.IsFunction) :
    e.Signed signatures w := by
  cases e with
  | lambda => exact absurd trivial h
  | _ => trivial

theorem gathers_of_children {v : Ty → Ty} {w : Effects → Effects} {e : TypedExpr} (hcallee : e.callee? = none)
    (h : ∀ c ∈ e.children, (w e.effects).Includes (w c.effects)) : e.Gathers v w :=
  ⟨fun c hc => h c (e.evaluated_subset c hc), fun _ hfunc => absurd (hcallee.symm.trans hfunc) nofun⟩

variable {v v' : Ty → Ty} {w w' : Effects → Effects} {signatures : EffectSignatures} {e : TypedExpr}

theorem Gathers.congr (h : e.Gathers v w) (hv : ∀ t ∈ e.types, v t = v' t) (hw : ∀ x ∈ e.rows, w x = w' x) :
    e.Gathers v' w' := by
  have hself : w e.effects = w' e.effects := hw _ List.mem_cons_self
  have hchild {c : TypedExpr} (hc : c ∈ e.children) : w c.effects = w' c.effects :=
    hw _ (List.mem_cons_of_mem _ (List.mem_map_of_mem hc))
  refine ⟨fun c hc => ?_, fun func hfunc => ?_⟩
  · rw [← hself, ← hchild (e.evaluated_subset c hc)]
    exact h.parts c hc
  · obtain ⟨ps, latent, r, hty, hincludes⟩ := h.call func hfunc
    have hmem : func.ty ∈ e.types :=
      List.mem_cons_of_mem _ (List.mem_append_left _ (List.mem_map_of_mem (callee?_mem_children hfunc)))
    exact ⟨ps, latent, r, hv _ hmem ▸ hty, hself ▸ hincludes⟩

theorem Signed.congr (h : e.Signed signatures w) (hw : ∀ x ∈ e.rows, w x = w' x) : e.Signed signatures w' := by
  cases e with
  | lambda i params body =>
      intro names hnames
      rw [← hw body.effects (List.mem_cons_of_mem _ List.mem_cons_self)]
      exact h names hnames
  | _ => trivial

end TypedExpr

namespace Substitution

open TypedExpr

variable (s : Substitution)

theorem effects_applyExpr (e : TypedExpr) : (s.applyExpr e).effects = s.applyEffects e.effects := by
  rw [TypedExpr.effects, info_applyExpr]
  rfl

theorem rows_applyExpr (e : TypedExpr) : (s.applyExpr e).rows = e.rows.map s.applyEffects := by
  simp [TypedExpr.rows, effects_applyExpr, children_applyExpr]

theorem evaluated_applyExpr (e : TypedExpr) : (s.applyExpr e).evaluated = e.evaluated.map s.applyExpr := by
  cases e with
  | lambda => rfl
  | app i func args => exact s.children_applyExpr (.app i func args)
  | _ => simp [applyExpr, evaluated, children, applyExprs_eq, applyExprFields_eq, applyBindings_eq, applyArms_eq, applyBinding]

theorem callee?_applyExpr (e : TypedExpr) : (s.applyExpr e).callee? = e.callee?.map s.applyExpr := by
  cases e <;> rfl

theorem isFunction_applyExpr {e : TypedExpr} : (s.applyExpr e).IsFunction ↔ e.IsFunction := by
  cases e <;> rfl

theorem chase_fn (n : Nat) (ps : List Ty) (e : Effects) (r : Ty) :
    s.chase n (.fn ps e r) = .fn (ps.map (s.chase n)) (e.map (s.chaseRow n)) (s.chase n r) := by
  cases n with
  | zero =>
      change Ty.fn ps e r = .fn (ps.map fun t => t) (e.map fun r => r) r
      rw [List.map_id', Option.map_id']
  | succ n => exact (congrArg _ (chase_succ n _)).trans (Ty.subst_fn ps e r)

theorem gathers_applyExpr {v : Ty → Ty} {w : Effects → Effects} {e : TypedExpr}
    (h : e.Gathers (fun t => v (s.apply t)) fun x => w (s.applyEffects x)) : (s.applyExpr e).Gathers v w := by
  refine ⟨fun c hc => ?_, fun func hfunc => ?_⟩
  · rw [evaluated_applyExpr] at hc
    obtain ⟨part, hpart, rfl⟩ := List.mem_map.mp hc
    rw [effects_applyExpr, effects_applyExpr]
    exact h.parts part hpart
  · rw [callee?_applyExpr] at hfunc
    obtain ⟨callee, hcallee, rfl⟩ := Option.map_eq_some_iff.mp hfunc
    rw [effects_applyExpr, ty_applyExpr]
    exact h.call callee hcallee

theorem applyEffects_elaborate {names : List String} {e : Effects} (h : Effects.elaborate names = .ok e) :
    s.applyEffects e = e := by
  obtain ⟨-, rfl⟩ := Effects.elaborate_ok_iff.mp h
  split
  · rfl
  · refine congrArg some (applyRow_of_free fun v hv => ?_)
    rcases Row.mem_vars.mp hv with ⟨f, hf, hv⟩ | ⟨r, hr, -⟩
    · rw [State.mem_unit_fields hf] at hv
      cases hv
    · cases hr

theorem signed_applyExpr {signatures : EffectSignatures} {w : Effects → Effects} {e : TypedExpr}
    (h : e.Signed signatures fun x => w (s.applyEffects x)) : (s.applyExpr e).Signed signatures w := by
  cases e with
  | lambda i params body =>
      intro names hnames
      obtain ⟨hknown, ⟨ps, declared, r, hdeclared, hty⟩, hbounded⟩ := h names hnames
      refine ⟨hknown, ⟨ps.map s.apply, declared, s.apply r, hdeclared, ?_⟩, ?_⟩
      · change s.apply i.ty = _
        rw [hty, apply, chase_fn]
        exact congrArg (Ty.fn _ · _) (s.applyEffects_elaborate hdeclared)
      · rwa [effects_applyExpr]
  | _ => trivial

end Substitution

end RowTyping
