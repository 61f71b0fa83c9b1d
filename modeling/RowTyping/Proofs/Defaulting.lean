import RowTyping.Classes.Defaulting
import RowTyping.Proofs.Dependency

namespace RowTyping

namespace Registry

variable {r : Registry} {className : String}

theorem mem_reduceVarsAll {ts : List Ty} {v : TypeVarId} :
    v ∈ r.reduceVarsAll className ts ↔ ∃ t ∈ ts, v ∈ r.reduceVars className t := by
  induction ts with
  | nil => simp [reduceVarsAll]
  | cons t ts ih => simp [reduceVarsAll, ih]

theorem mem_vars_of_reduceVars {v : TypeVarId} (t : Ty) : v ∈ r.reduceVars className t → Var.type v ∈ t.vars := by
  suffices h : (∀ t : Ty, v ∈ r.reduceVars className t → Var.type v ∈ t.vars) ∧ ∀ _ : Row, True from h.1 t
  apply Ty.induct_rows
  case var =>
    intro w h
    rw [List.mem_singleton.mp h]
    exact Ty.mem_vars_var.mpr rfl
  case app =>
    intro t as _ has h
    rw [reduceVars] at h
    split at h
    · obtain ⟨a, ha, h⟩ := mem_reduceVarsAll.mp h
      exact Ty.mem_vars_app.mpr (.inr ⟨a, ha, has a ha h⟩)
    · cases h
  case list =>
    intro a ha h
    rw [reduceVars] at h
    split at h
    · exact ha h
    · cases h
  case tuple =>
    intro as has h
    rw [reduceVars] at h
    split at h
    · obtain ⟨a, ha, h⟩ := mem_reduceVarsAll.mp h
      exact Ty.mem_vars_tuple.mpr ⟨a, ha, has a ha h⟩
    · cases h
  case con => exact fun _ h => nomatch h
  case fn => exact fun _ _ _ _ _ _ h => nomatch h
  case record => exact fun _ _ h => nomatch h
  case row => exact fun _ _ _ _ => trivial

def IsDefault (r : Registry) (t : Ty) : Prop :=
  t = r.moduleDefault ∨ ∃ className, r.defaultType className = some t

theorem chooseDefault_isDefault {classes : OrderedSet String} {t : Ty} (h : r.chooseDefault classes = .ok t) :
    r.IsDefault t := by
  unfold chooseDefault at h
  cases hprimary : r.primaryClasses classes with
  | error => rw [hprimary] at h; cases h
  | ok primary =>
      rw [hprimary] at h
      simp only [bind, Except.bind] at h
      split at h
      · cases h
        exact .inl rfl
      · split at h
        next t' ht' =>
          cases h
          exact .inr ⟨_, ht'⟩
        next => cases h
      · cases h

end Registry

namespace Defaulting

variable {r : Registry}

theorem mem_addConstraint {m : OrderedMap TypeVarId VarClasses} {k : ClassConstraint} {e : TypeVarId × VarClasses}
    (h : e ∈ addConstraint r m k) : Var.type e.1 ∈ k.ty.vars ∨ ∃ e' ∈ m, e'.1 = e.1 := by
  have hfoldl {vs : List TypeVarId} {m : OrderedMap TypeVarId VarClasses} (hvs : ∀ v ∈ vs, Var.type v ∈ k.ty.vars)
      (h : e ∈ vs.foldl (addVar k) m) : Var.type e.1 ∈ k.ty.vars ∨ ∃ e' ∈ m, e'.1 = e.1 := by
    induction vs generalizing m with
    | nil => exact .inr ⟨e, h, rfl⟩
    | cons v vs ih =>
        rw [List.forall_mem_cons] at hvs
        rcases ih hvs.2 h with h | ⟨e', he', heq⟩
        · exact .inl h
        · rcases OrderedMap.mem_insert he' with rfl | he'
          · exact .inl (heq ▸ hvs.1)
          · exact .inr ⟨e', he', heq⟩
  exact hfoldl (fun v hv => r.mem_vars_of_reduceVars k.ty hv) h

theorem mem_byVar {ks : List ClassConstraint} {e : TypeVarId × VarClasses} (h : e ∈ byVar r ks) :
    ∃ k ∈ ks, Var.type e.1 ∈ k.ty.vars := by
  have hfoldl (ks : List ClassConstraint) {m : OrderedMap TypeVarId VarClasses} (h : e ∈ ks.foldl (addConstraint r) m) :
      (∃ k ∈ ks, Var.type e.1 ∈ k.ty.vars) ∨ ∃ e' ∈ m, e'.1 = e.1 := by
    induction ks generalizing m with
    | nil => exact .inr ⟨e, h, rfl⟩
    | cons k ks ih =>
        rcases ih h with ⟨k', hk', h⟩ | ⟨e', he', heq⟩
        · exact .inl ⟨k', List.mem_cons_of_mem _ hk', h⟩
        · rcases mem_addConstraint he' with h | he
          · exact .inl ⟨k, List.mem_cons_self, heq ▸ h⟩
          · exact .inr (he.imp fun _ h => ⟨h.1, h.2.trans heq⟩)
  exact (hfoldl ks h).resolve_right fun ⟨_, he, _⟩ => nomatch he

structure Sound (r : Registry) (ks : List ClassConstraint) (out : DefaultingOutcome) : Prop where
  binds : ∀ e ∈ out.subst.types, r.IsDefault e.2 ∧ ∃ k ∈ ks, Var.type e.1 ∈ k.ty.vars
  rejected : out.errors = [] → out.rejected = []

theorem Sound.choose {ks : List ClassConstraint} {out : DefaultingOutcome} (h : Sound r ks out) {e : TypeVarId × VarClasses}
    (he : ∃ k ∈ ks, Var.type e.1 ∈ k.ty.vars) : Sound r ks (choose r out e) := by
  rw [Defaulting.choose]
  split
  next t ht =>
    refine ⟨fun e' he' => ?_, h.rejected⟩
    rcases OrderedMap.mem_insert he' with rfl | he'
    · exact ⟨Registry.chooseDefault_isDefault ht, he⟩
    · exact h.binds e' he'
  next => exact ⟨h.binds, fun herrors => absurd herrors (List.append_ne_nil_of_right_ne_nil _ (List.cons_ne_nil _ _))⟩

theorem sound_defaultConstraints (monotype : Ty) (ks : List ClassConstraint) (envVars : List TypeVarId) (mode : DefaultingMode) :
    Sound r ks (defaultConstraints monotype ks envVars r mode) := by
  have hfoldl {es : List (TypeVarId × VarClasses)} (hes : ∀ e ∈ es, ∃ k ∈ ks, Var.type e.1 ∈ k.ty.vars)
      {out : DefaultingOutcome} (h : Sound r ks out) : Sound r ks (es.foldl (Defaulting.choose r) out) := by
    induction es generalizing out with
    | nil => exact h
    | cons e es ih =>
        rw [List.forall_mem_cons] at hes
        exact ih hes.2 (h.choose hes.1)
  exact hfoldl (fun e he => mem_byVar (List.mem_of_mem_filter he)) ⟨List.forall_mem_nil _, fun _ => rfl⟩

end Defaulting

end RowTyping
