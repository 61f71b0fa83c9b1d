import RowTyping.Proofs.Decisions

namespace RowTyping

namespace Ty

inductive Headed : Ty → Prop
  | var (v : TypeVar) : Headed (.var v)
  | con (name : String) : Headed (.con name)
  | app {h : Ty} {as : List Ty} : h.isVar = false → Headed h → (∀ a ∈ as, Headed a) → Headed (.app h as)
  | list {a : Ty} : Headed a → Headed (.list a)
  | tuple {as : List Ty} : (∀ a ∈ as, Headed a) → Headed (.tuple as)
  | fn {ps : List Ty} {e : Effects} {r : Ty} : (∀ p ∈ ps, Headed p) → (∀ row ∈ e, ∀ f ∈ row.fields, Headed f.2) → Headed r →
      Headed (.fn ps e r)
  | record {r : Row} : (∀ f ∈ r.fields, Headed f.2) → Headed (.record r)

variable {σ : TypeVarId → Option Ty} {ρ : RowVarId → Option Row} {t : Ty}

theorem Headed.head?_subst (h : t.Headed) (ht : t.isVar = false) : (t.subst σ ρ).head? = t.head? := by
  induction h with
  | var => cases ht
  | app hhead _ _ ih _ => exact ih hhead
  | _ => rfl

theorem arguments_subst (ht : t.isVar = false) : (t.subst σ ρ).arguments = t.arguments.map (subst σ ρ) := by
  cases t with
  | var => cases ht
  | app h as => rw [subst_app]; rfl
  | tuple as => rw [subst_tuple]; rfl
  | _ => rfl

theorem forall_arguments_subst {p : Ty → Prop} (ht : t.isVar = false) :
    (∀ a ∈ (t.subst σ ρ).arguments, p a) ↔ ∀ a ∈ t.arguments, p (a.subst σ ρ) := by
  rw [arguments_subst ht, List.forall_mem_map]

end Ty

theorem Substitution.exists_subst (s : Substitution) : ∃ σ ρ, ∀ t : Ty, s.apply t = t.subst σ ρ := by
  unfold apply
  cases s.depth with
  | zero => exact ⟨_, _, fun t => (Ty.subst_none t).symm⟩
  | succ n => exact ⟨_, _, s.chase_succ n⟩

namespace Registry

variable {r : Registry} {c : String} {t u : Ty} {v : TypeVarId} {σ σ₀ : TypeVarId → Option Ty} {ρ ρ₀ : RowVarId → Option Row}

def Finds (r : Registry) (c : String) (t : Ty) : Prop :=
  ∃ answer, r.find c t = .ok answer

theorem finds_iff : r.Finds c t ↔ ∃ i, r.lookup c t = some i ∧ (i.constrainsArguments = true → ∀ a ∈ t.arguments, r.Finds c a) := by
  constructor
  · rintro ⟨answer, h⟩
    exact find_ok h
  · rintro ⟨i, hi, h⟩
    exact find_of_lookup hi h

theorem not_finds_var (w : TypeVar) : ¬ r.Finds c (.var w) := by
  intro h
  obtain ⟨i, hi, -⟩ := finds_iff.mp h
  cases hi

theorem lookup_subst (h : t.Headed) (ht : t.isVar = false) : r.lookup c (t.subst σ ρ) = r.lookup c t := by
  rw [lookup, lookup, h.head?_subst ht]

-- Whether the class comes down to anything below is decided by the same instance before and after.
theorem finds_subst_step (h : t.Headed) (ht : t.isVar = false) (hfound : r.Finds c (t.subst σ₀ ρ₀))
    (ih : ∀ a ∈ t.arguments, r.Finds c (a.subst σ₀ ρ₀) →
      (r.Finds c (a.subst σ ρ) ↔ ∀ v, r.Reduces c a v → r.Finds c ((Ty.ofVar v).subst σ ρ))) :
    r.Finds c (t.subst σ ρ) ↔ ∀ v, r.Reduces c t v → r.Finds c ((Ty.ofVar v).subst σ ρ) := by
  have hreduces {v : TypeVarId} : r.Reduces c t v ↔ r.constrainsArguments c t = true ∧ ∃ a ∈ t.arguments, r.Reduces c a v :=
    reduces_iff fun kind heq => by rw [← heq] at ht; cases ht
  obtain ⟨i, hi, harguments⟩ := finds_iff.mp hfound
  rw [lookup_subst h ht] at hi
  rw [Ty.forall_arguments_subst ht] at harguments
  have hconstrains : r.constrainsArguments c t = i.constrainsArguments := by rw [constrainsArguments, hi, Option.any_some]
  calc
    r.Finds c (t.subst σ ρ) ↔ (i.constrainsArguments = true → ∀ a ∈ t.arguments, r.Finds c (a.subst σ ρ)) := by
      rw [finds_iff, lookup_subst h ht, hi]
      simp only [Option.some.injEq, exists_eq_left', Ty.forall_arguments_subst ht]
    _ ↔ (i.constrainsArguments = true → ∀ a ∈ t.arguments, ∀ v, r.Reduces c a v → r.Finds c ((Ty.ofVar v).subst σ ρ)) :=
      forall_congr' fun hasks => forall₂_congr fun a ha => ih a ha (harguments hasks a ha)
    _ ↔ ∀ v, r.Reduces c t v → r.Finds c ((Ty.ofVar v).subst σ ρ) := by
      simp only [hreduces, hconstrains]
      constructor
      · rintro hall v ⟨hasks, a, ha, hv⟩
        exact hall hasks a ha v hv
      · exact fun hall hasks a ha v hv => hall v ⟨hasks, a, ha, hv⟩

theorem finds_subst_iff (h : t.Headed) (hfound : r.Finds c (t.subst σ₀ ρ₀)) :
    r.Finds c (t.subst σ ρ) ↔ ∀ v, r.Reduces c t v → r.Finds c ((Ty.ofVar v).subst σ ρ) := by
  induction h with
  | var w =>
      have hreduces {v : TypeVarId} : r.Reduces c (.var w) v ↔ v = w.id := by
        rw [← mem_reduceVars_iff, reduceVars, List.mem_singleton]
      simp only [hreduces, forall_eq]
      -- The kinds may differ, but without an instance a variable is not found in either.
      change r.Finds c ((σ w.id).getD (.var w)) ↔ r.Finds c ((σ w.id).getD (.ofVar w.id))
      cases σ w.id with
      | none => exact iff_of_false (not_finds_var _) (not_finds_var _)
      | some u => exact Iff.rfl
  | con name => exact finds_subst_step (.con name) rfl hfound (List.forall_mem_nil _)
  | app hhead hh has _ ih => exact finds_subst_step (.app hhead hh has) rfl hfound ih
  | list ha ih => exact finds_subst_step (.list ha) rfl hfound (List.forall_mem_singleton.mpr ih)
  | tuple has ih => exact finds_subst_step (.tuple has) rfl hfound ih
  | fn hps he hr => exact finds_subst_step (.fn hps he hr) rfl hfound (List.forall_mem_nil _)
  | record hfs => exact finds_subst_step (.record hfs) rfl hfound (List.forall_mem_nil _)

theorem finds_apply_iff_reduceVars (r : Registry) (c : String) {t : Ty} (ht : t.Headed) {s₀ : Substitution}
    (hfound : r.Finds c (s₀.apply t)) (s : Substitution) :
    r.Finds c (s.apply t) ↔ ∀ v ∈ r.reduceVars c t, r.Finds c (s.apply (.ofVar v)) := by
  obtain ⟨σ₀, ρ₀, h₀⟩ := s₀.exists_subst
  obtain ⟨σ, ρ, h⟩ := s.exists_subst
  rw [h₀] at hfound
  simp only [h, mem_reduceVars_iff]
  exact finds_subst_iff ht hfound

theorem finds_apply_iff_reduceVars_boxed :
    let calls : List Call := [.registerClass ⟨"Eq", [], ["eq"], none⟩, .registerClass ⟨"Ord", ["Eq"], ["lt"], none⟩,
      .registerInstance (.builtin "Eq" "Int" ["eq"]), .registerInstance (.builtin "Eq" "Box" ["eq"]),
      .registerInstance (ClassInstance.builtin "Ord" "List" ["lt"]).withArgumentContext,
      .registerInstance (ClassInstance.builtin "Eq" "Tuple" ["eq"]).withArgumentContext]
    let r := (empty.performAll calls).2
    let t := Ty.tuple [.list (.ofVar 0), .app (.con "Box") [.ofVar 1]]
    let s (element boxed : Ty) := (Substitution.empty.bindType 0 element).bindType 1 boxed
    t.Headed ∧ r.Finds "Eq" ((s .int .int).apply t) ∧ r.reduceVars "Eq" t = [0] ∧
      r.Finds "Eq" ((s (.list .int) (.fn [] none .int)).apply t) ∧ ¬ r.Finds "Eq" ((s .float .int).apply t) := by
  intro calls r t s
  have hheaded : t.Headed := by
    refine .tuple (List.forall_mem_cons.mpr ⟨.list (.var _), List.forall_mem_singleton.mpr ?_⟩)
    exact .app rfl (.con _) (List.forall_mem_singleton.mpr (.var _))
  have hfound : r.Finds "Eq" ((s .int .int).apply t) := ⟨("Tuple", false), by decide +kernel⟩
  have hvars : r.reduceVars "Eq" t = [0] := by decide +kernel
  have hlist : r.Finds "Eq" ((s (.list .int) (.fn [] none .int)).apply (.ofVar 0)) := ⟨("List", true), by decide +kernel⟩
  have hmissing : r.find "Eq" ((s .float .int).apply (.ofVar 0)) = .error .float := by decide +kernel
  refine ⟨hheaded, hfound, hvars, ?_, fun h => ?_⟩
  · rw [finds_apply_iff_reduceVars r "Eq" hheaded hfound, hvars]
    exact List.forall_mem_singleton.mpr hlist
  · rw [finds_apply_iff_reduceVars r "Eq" hheaded hfound, hvars, List.forall_mem_singleton] at h
    obtain ⟨answer, hanswer⟩ := h
    cases hmissing.symm.trans hanswer

end Registry

end RowTyping
