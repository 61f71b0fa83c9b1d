import RowTyping.Classes.Registry

namespace RowTyping

open TryM

def RegistryM.Steady (m : RegistryM Unit) : Prop :=
  ∀ r d r', m r = (.error d, r') → r' = r

namespace Registry

variable {r r' : Registry} {decl : ClassDecl} {i : ClassInstance}

theorem hasClass_iff {c : String} : r.hasClass c = true ↔ ∃ decl, r.classes.find? c = some decl :=
  Option.isSome_iff_exists

theorem checkOpen_run (what : String) : (∃ d, r.frozen = true ∧ checkOpen what r = (.error d, r)) ∨
    (r.frozen = false ∧ checkOpen what r = (.ok (), r)) := by
  have hrun : checkOpen what r = _ := exec_ite r (r.frozen = true) (refuse _) (pure ())
  rw [hrun]
  cases hopen : r.frozen with
  | true => exact .inl ⟨_, rfl, rfl⟩
  | false => exact .inr ⟨rfl, rfl⟩

theorem registerClass_run (r : Registry) (decl : ClassDecl) : (∃ d, registerClass decl r = (.error d, r)) ∨
    (r.frozen = false ∧ r.hasClass decl.name = false ∧ (∀ s ∈ decl.superclasses, r.hasClass s = true) ∧
      registerClass decl r = (.ok (), { r with
        classes := r.classes.insert decl.name decl, events := .registeredClass decl.name :: r.events })) := by
  rw [registerClass, exec_bind]
  rcases checkOpen_run ("class `" ++ decl.name ++ "`") with ⟨d, -, hrefused⟩ | ⟨hopen, haccepted⟩
  · rw [hrefused]
    exact .inl ⟨d, rfl⟩
  rw [haccepted]
  simp only [exec_bind, exec_get, exec_ite]
  by_cases hnew : r.hasClass decl.name = true
  · rw [if_pos hnew]
    exact .inl ⟨_, rfl⟩
  rw [if_neg hnew]
  cases hmissing : decl.superclasses.find? fun s => !r.hasClass s with
  | some missing => exact .inl ⟨_, rfl⟩
  | none =>
      refine .inr ⟨hopen, Bool.eq_false_iff.mpr hnew, fun s hs => ?_, rfl⟩
      simpa using List.find?_eq_none.mp hmissing s hs

theorem registerInstance_run (r : Registry) (i : ClassInstance) : (∃ d, registerInstance i r = (.error d, r)) ∨
    (r.frozen = false ∧ r.direct? i.className i.head = none ∧ ∃ decl, r.classes.find? i.className = some decl ∧
      registerInstance i r = (.ok (), { r with
        instances := r.instances.insert i.className
          (((r.instances.find? i.className).getD []).insert i.head { i with superclasses := decl.superclasses }) })) := by
  rw [registerInstance, exec_bind]
  rcases checkOpen_run ("instance " ++ i.className ++ " " ++ i.head) with ⟨d, -, hrefused⟩ | ⟨hopen, haccepted⟩
  · rw [hrefused]
    exact .inl ⟨d, rfl⟩
  rw [haccepted]
  simp only [exec_bind, exec_get]
  cases hclass : r.classes.find? i.className with
  | none => exact .inl ⟨_, rfl⟩
  | some decl =>
      simp only [exec_ite]
      by_cases hold : (r.direct? i.className i.head).isSome = true
      · rw [if_pos hold]
        exact .inl ⟨_, rfl⟩
      · rw [if_neg hold]
        exact .inr ⟨hopen, by simpa using hold, decl, rfl, rfl⟩

section Inversion

theorem registerClass_ok (h : registerClass decl r = (.ok (), r')) : r.frozen = false ∧ r.hasClass decl.name = false ∧
    (∀ s ∈ decl.superclasses, r.hasClass s = true) ∧
    r' = { r with classes := r.classes.insert decl.name decl, events := .registeredClass decl.name :: r.events } := by
  rcases registerClass_run r decl with ⟨d, hrefused⟩ | ⟨hopen, hnew, hsupers, haccepted⟩
  · cases hrefused.symm.trans h
  · exact ⟨hopen, hnew, hsupers, (congrArg Prod.snd (haccepted.symm.trans h)).symm⟩

theorem registerInstance_ok (h : registerInstance i r = (.ok (), r')) : r.frozen = false ∧ r.direct? i.className i.head = none ∧
    ∃ decl, r.classes.find? i.className = some decl ∧ r' = { r with
      instances := r.instances.insert i.className
        (((r.instances.find? i.className).getD []).insert i.head { i with superclasses := decl.superclasses }) } := by
  rcases registerInstance_run r i with ⟨d, hrefused⟩ | ⟨hopen, hnew, decl, hdecl, haccepted⟩
  · cases hrefused.symm.trans h
  · exact ⟨hopen, hnew, decl, hdecl, (congrArg Prod.snd (haccepted.symm.trans h)).symm⟩

theorem steady_registerClass (decl : ClassDecl) : (registerClass decl).Steady := by
  intro r d r' h
  rcases registerClass_run r decl with ⟨d', hrefused⟩ | ⟨-, -, -, haccepted⟩
  · exact (congrArg Prod.snd (hrefused.symm.trans h)).symm
  · cases haccepted.symm.trans h

theorem steady_registerInstance (i : ClassInstance) : (registerInstance i).Steady := by
  intro r d r' h
  rcases registerInstance_run r i with ⟨d', hrefused⟩ | ⟨-, -, _, -, haccepted⟩
  · exact (congrArg Prod.snd (hrefused.symm.trans h)).symm
  · cases haccepted.symm.trans h

end Inversion

section Sequences

variable {α : Type} {add : α → RegistryM Unit} {as bs : List α} {a : α}

theorem register_append : r.register add (as ++ bs) =
    ((r.register add as).1 ++ ((r.register add as).2.register add bs).1, ((r.register add as).2.register add bs).2) := by
  induction as generalizing r with
  | nil => rfl
  | cons a as ih =>
      rw [List.cons_append, register, register]
      split
      next => exact ih
      next => simp only [ih, List.cons_append]

theorem register_concat : r.register add (as ++ [a]) =
    match add a (r.register add as).2 with
    | (.ok (), r') => ((r.register add as).1, r')
    | (.error d, r') => ((r.register add as).1 ++ [d], r') := by
  rw [register_append]
  rcases h : add a (r.register add as).2 with ⟨d | u, r'⟩
  · simp only [register, h]
  · simp only [register, h, List.append_nil]

theorem register_invariant {P : Registry → Prop} (hsteady : ∀ a, (add a).Steady)
    (h : ∀ a ∈ as, ∀ r r', P r → add a r = (.ok (), r') → P r') (hr : P r) : P (r.register add as).2 := by
  induction as generalizing r with
  | nil => exact hr
  | cons a as ih =>
      rw [List.forall_mem_cons] at h
      rw [register]
      split
      next r' hr' => exact ih h.2 (h.1 r r' hr hr')
      next d r' hr' => exact ih h.2 (hsteady a r d r' hr' ▸ hr)

end Sequences

end Registry

end RowTyping
