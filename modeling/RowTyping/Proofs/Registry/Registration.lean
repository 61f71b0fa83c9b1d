import RowTyping.Proofs.Registry.Defaults

namespace RowTyping

namespace Registry

variable {r r' r₁ r₂ : Registry} {i j : ClassInstance} {given given' : List ClassInstance} {c head : String}

section Direct

theorem exists_registerInstance_iff : (∃ r', registerInstance i r = (.ok (), r')) ↔
    r.frozen = false ∧ r.hasClass i.className = true ∧ r.direct? i.className i.head = none := by
  constructor
  · rintro ⟨r', h⟩
    obtain ⟨hopen, hnew, decl, hdecl, -⟩ := registerInstance_ok h
    exact ⟨hopen, hasClass_iff.mpr ⟨decl, hdecl⟩, hnew⟩
  · rintro ⟨hopen, hclass, hnew⟩
    rw [registerInstance, TryM.exec_bind]
    rcases checkOpen_run ("instance " ++ i.className ++ " " ++ i.head) with ⟨d, hfrozen, -⟩ | ⟨-, haccepted⟩
    · cases hopen.symm.trans hfrozen
    obtain ⟨decl, hdecl⟩ := hasClass_iff.mp hclass
    rw [haccepted]
    simp only [TryM.exec_bind, TryM.exec_get, hdecl, hnew]
    exact ⟨_, rfl⟩

theorem registerInstance_frame (h : registerInstance i r = (.ok (), r')) : r' = { r with instances := r'.instances } := by
  obtain ⟨-, -, decl, -, rfl⟩ := registerInstance_ok h
  rfl

theorem superclassesOf_registerInstance (h : registerInstance i r = (.ok (), r')) (c : String) : r'.superclassesOf c = r.superclassesOf c := by
  rw [registerInstance_frame h]
  rfl

def Filled (r : Registry) : Prop :=
  ∀ b ∈ r.instances, b.2 ≠ []

theorem Filled.registerInstance (h : r.Filled) (hr : registerInstance i r = (.ok (), r')) : r'.Filled := by
  obtain ⟨-, -, decl, -, rfl⟩ := registerInstance_ok hr
  intro b hb
  rcases OrderedMap.mem_insert hb with rfl | hb
  · exact OrderedMap.insert_ne_nil _ _ _
  · exact h b hb

theorem Filled.perform {call : Call} (h : r.Filled) (hr : perform call r = (.ok (), r')) : r'.Filled := by
  cases call with
  | registerClass =>
      obtain ⟨-, -, -, rfl⟩ := registerClass_ok hr
      exact h
  | registerInstance => exact h.registerInstance hr
  | setModuleDefault =>
      cases hr
      exact h
  | freeze =>
      cases hr
      exact h

theorem filled_performAll (calls : List Call) : (empty.performAll calls).2.Filled :=
  register_invariant (P := Filled) steady_perform (fun _ _ _ _ h hr => h.perform hr) (List.forall_mem_nil _)

theorem Filled.find?_eq_none_iff (h : r.Filled) : r.instances.find? c = none ↔ ∀ head, r.direct? c head = none := by
  constructor
  · intro hnone head
    rw [direct?, hnone, Option.bind_none]
  · intro hnone
    cases hheads : r.instances.find? c with
    | none => rfl
    | some heads =>
        cases heads with
        | nil => exact absurd rfl (h _ (OrderedMap.mem_of_find? hheads))
        | cons e heads =>
            have hfound := hnone e.1
            rw [direct?, hheads, Option.bind_some, OrderedMap.find?_cons, if_pos rfl] at hfound
            cases hfound

theorem instances_eq (hr : r.Coherent) (hr' : r'.Coherent) (hfilled : r.Filled) (hfilled' : r'.Filled)
    (h : ∀ c head, r.direct? c head = r'.direct? c head) : r.instances = r'.instances := by
  refine hr.instances.ext hr'.instances fun c => ?_
  have hnone : r.instances.find? c = none ↔ r'.instances.find? c = none := by
    rw [hfilled.find?_eq_none_iff, hfilled'.find?_eq_none_iff]
    exact forall_congr' fun head => by rw [h]
  cases hc : r.instances.find? c with
  | none => exact (hnone.mp hc).symm
  | some heads =>
      cases hc' : r'.instances.find? c with
      | none => cases hc.symm.trans (hnone.mpr hc')
      | some heads' =>
          refine congrArg some ((hr.heads _ (OrderedMap.mem_of_find? hc)).ext (hr'.heads _ (OrderedMap.mem_of_find? hc')) fun head => ?_)
          have hsame := h c head
          rwa [direct?, direct?, hc, hc'] at hsame

end Direct

section Order

theorem registerInstance_comm (h : r.Coherent) (hfilled : r.Filled) (hi : registerInstance i r = (.ok (), r₁))
    (hj : registerInstance j r₁ = (.ok (), r₂)) : ∃ r₁', registerInstance j r = (.ok (), r₁') ∧ registerInstance i r₁' = (.ok (), r₂) := by
  have hdirect := direct?_registerInstance hi
  obtain ⟨hopen, hiclass, hinew⟩ := exists_registerInstance_iff.mp ⟨r₁, hi⟩
  obtain ⟨-, hjclass, hjnew⟩ := exists_registerInstance_iff.mp ⟨r₂, hj⟩
  rw [registerInstance_frame hi] at hjclass
  rw [hdirect] at hjnew
  obtain ⟨hne, hjnew⟩ : ¬ (j.className = i.className ∧ j.head = i.head) ∧ r.direct? j.className j.head = none := by
    split at hjnew
    · cases hjnew
    next hne => exact ⟨hne, hjnew⟩
  obtain ⟨r₁', hj'⟩ := exists_registerInstance_iff.mpr ⟨hopen, hjclass, hjnew⟩
  have hframe := registerInstance_frame hj'
  have hinew' : r₁'.direct? i.className i.head = none := by
    rw [direct?_registerInstance hj', if_neg fun h => hne ⟨h.1.symm, h.2.symm⟩, hinew]
  obtain ⟨r₂', hi'⟩ := exists_registerInstance_iff.mpr
    (⟨hframe ▸ hopen, hframe ▸ hiclass, hinew'⟩ : r₁'.frozen = false ∧ r₁'.hasClass i.className = true ∧ _)
  have hsame : r₂'.instances = r₂.instances := by
    refine instances_eq ((h.registerInstance hj').registerInstance hi') ((h.registerInstance hi).registerInstance hj)
      ((hfilled.registerInstance hj').registerInstance hi') ((hfilled.registerInstance hi).registerInstance hj) fun c head => ?_
    rw [direct?_registerInstance hi', direct?_registerInstance hj', direct?_registerInstance hj, hdirect,
      superclassesOf_registerInstance hi, superclassesOf_registerInstance hj']
    by_cases hkey : c = i.className ∧ head = i.head
    · have hother : ¬ (c = j.className ∧ head = j.head) := fun h => hne ⟨h.1.symm.trans hkey.1, h.2.symm.trans hkey.2⟩
      rw [if_pos hkey, if_neg hother, if_pos hkey]
    · rw [if_neg hkey, if_neg hkey]
  have heq : r₂' = r₂ := by
    rw [registerInstance_frame hi', hframe, registerInstance_frame hj, registerInstance_frame hi, hsame]
  exact ⟨r₁', hj', heq ▸ hi'⟩

theorem register_cons_eq_nil_iff {α : Type} {add : α → RegistryM Unit} {a : α} {as : List α} :
    (r.register add (a :: as)).1 = [] ↔ ∃ r', add a r = (.ok (), r') ∧ (r'.register add as).1 = [] := by
  rw [register]
  rcases add a r with ⟨_ | _, r'⟩ <;> simp

theorem register_cons_of_ok {α : Type} {add : α → RegistryM Unit} {a : α} (as : List α) (h : add a r = (.ok (), r')) :
    r.register add (a :: as) = r'.register add as := by
  rw [register, h]

theorem register_perm {is js : List ClassInstance} (hperm : is.Perm js) (h : r.Coherent) (hfilled : r.Filled)
    (haccepted : (r.register registerInstance is).1 = []) : r.register registerInstance js = r.register registerInstance is := by
  induction hperm generalizing r with
  | nil => rfl
  | cons i _ ih =>
      obtain ⟨r', hi, hrest⟩ := register_cons_eq_nil_iff.mp haccepted
      rw [register_cons_of_ok _ hi, register_cons_of_ok _ hi]
      exact ih (h.registerInstance hi) (hfilled.registerInstance hi) hrest
  | swap i j is =>
      obtain ⟨r₁, hj, hrest⟩ := register_cons_eq_nil_iff.mp haccepted
      obtain ⟨r₂, hi, -⟩ := register_cons_eq_nil_iff.mp hrest
      obtain ⟨r₁', hi', hj'⟩ := registerInstance_comm h hfilled hj hi
      rw [register_cons_of_ok _ hi', register_cons_of_ok _ hj', register_cons_of_ok _ hj, register_cons_of_ok _ hi]
  | trans _ _ ih ih' =>
      have hsame := ih h hfilled haccepted
      rw [ih' h hfilled (hsame ▸ haccepted), hsame]

end Order

section Accepted

def Call.instances : Call → List ClassInstance
  | .registerInstance i => [i]
  | _ => []

def accepted (r : Registry) : List Call → List ClassInstance
  | [] => []
  | call :: calls =>
      match perform call r with
      | (.ok (), r') => call.instances ++ r'.accepted calls
      | (.error _, r') => r'.accepted calls

structure Records (r : Registry) (given : List ClassInstance) : Prop where
  kept : ∀ i ∈ given, r.direct? i.className i.head = some { i with superclasses := r.superclassesOf i.className }
  given : ∀ c head i, r.direct? c head = some i → ∃ j ∈ given, j.className = c ∧ j.head = head

theorem records_empty : empty.Records [] where
  kept := List.forall_mem_nil _
  given := nofun

theorem Records.registerClass {decl : ClassDecl} (h : r.Records given) (hcoherent : r.Coherent) (hr : registerClass decl r = (.ok (), r')) :
    r'.Records given := by
  have hfind := find?_registerClass hr
  obtain ⟨-, hnew, -, rfl⟩ := registerClass_ok hr
  refine ⟨fun i hi => ?_, h.given⟩
  -- The class of an instance is there before it, so that it is not the new one.
  have hkept := h.kept i hi
  obtain ⟨-, -, decl', hdecl', -⟩ := hcoherent.stored_of_direct? hkept
  have hold : i.className ≠ decl.name := by
    intro hname
    rw [← hname] at hnew
    exact Bool.false_ne_true (hnew.symm.trans (hasClass_iff.mpr ⟨decl', hdecl'⟩))
  rw [superclassesOf, hfind, if_neg hold]
  exact hkept

theorem Records.registerInstance (h : r.Records given) (hr : registerInstance i r = (.ok (), r')) : r'.Records (given ++ [i]) := by
  have hdirect := direct?_registerInstance hr
  have hnew := (exists_registerInstance_iff.mp ⟨r', hr⟩).2.2
  refine ⟨fun j hj => ?_, fun c head j hj => ?_⟩
  · rw [hdirect, superclassesOf_registerInstance hr]
    rcases List.mem_append.mp hj with hj | hj
    · have hkept := h.kept j hj
      have hother : ¬ (j.className = i.className ∧ j.head = i.head) := by
        rintro ⟨hname, hhead⟩
        rw [hname, hhead, hnew] at hkept
        cases hkept
      rw [if_neg hother]
      exact hkept
    · obtain rfl := List.mem_singleton.mp hj
      exact if_pos ⟨rfl, rfl⟩
  · rw [hdirect] at hj
    split at hj
    next hkey => exact ⟨i, List.mem_append_right _ (List.mem_singleton_self _), hkey.1.symm, hkey.2.symm⟩
    next => exact (h.given c head j hj).imp fun j' hj' => hj'.imp_left (List.mem_append_left _)

theorem Records.perform {call : Call} (h : r.Records given) (hcoherent : r.Coherent) (hr : perform call r = (.ok (), r')) :
    r'.Records (given ++ call.instances) := by
  cases call with
  | registerClass => exact (List.append_nil given).symm ▸ h.registerClass hcoherent hr
  | registerInstance => exact h.registerInstance hr
  | setModuleDefault =>
      cases hr
      exact (List.append_nil given).symm ▸ ⟨h.kept, h.given⟩
  | freeze =>
      cases hr
      exact (List.append_nil given).symm ▸ ⟨h.kept, h.given⟩

theorem Records.performAll (h : r.Records given) (hcoherent : r.Coherent) (calls : List Call) :
    (r.performAll calls).2.Records (given ++ r.accepted calls) := by
  induction calls generalizing r given with
  | nil => exact (List.append_nil given).symm ▸ h
  | cons call calls ih =>
      rw [Registry.performAll, register, accepted]
      rcases hr : Registry.perform call r with ⟨d | u, r'⟩
      · obtain rfl := steady_perform call r d r' hr
        exact ih h hcoherent
      · have hrest := ih (h.perform hcoherent hr) (hcoherent.perform hr)
        rw [List.append_assoc] at hrest
        exact hrest

theorem records_accepted (calls : List Call) : (empty.performAll calls).2.Records (empty.accepted calls) :=
  records_empty.performAll coherent_empty calls

theorem Records.direct?_eq_none_iff (h : r.Records given) : r.direct? c head = none ↔ ∀ i ∈ given, i.head = head → i.className ≠ c := by
  constructor
  · rintro hnone i hi rfl rfl
    cases hnone.symm.trans (h.kept i hi)
  · intro hnone
    cases hi : r.direct? c head with
    | none => rfl
    | some i =>
        obtain ⟨j, hj, hname, hhead⟩ := h.given c head i hi
        exact absurd hname (hnone j hj hhead)

theorem Records.direct?_eq (h : r.Records given) (h' : r'.Records given') (hclasses : r'.classes = r.classes)
    (hsame : ∀ i, i ∈ given' ↔ i ∈ given) (c head : String) : r'.direct? c head = r.direct? c head := by
  have hsupers (c : String) : r'.superclassesOf c = r.superclassesOf c := by rw [superclassesOf, superclassesOf, hclasses]
  cases hi : r.direct? c head with
  | some i =>
      obtain ⟨j, hj, rfl, rfl⟩ := h.given c head i hi
      rw [h'.kept j ((hsame j).mpr hj), hsupers, ← hi, h.kept j hj]
  | none =>
      refine h'.direct?_eq_none_iff.mpr fun i hi' => ?_
      exact h.direct?_eq_none_iff.mp hi i ((hsame i).mp hi')

theorem instances_performAll_congr {calls calls' : List Call}
    (hclasses : (empty.performAll calls').2.classes = (empty.performAll calls).2.classes)
    (hsame : ∀ i, i ∈ empty.accepted calls' ↔ i ∈ empty.accepted calls) :
    (empty.performAll calls').2.instances = (empty.performAll calls).2.instances :=
  instances_eq (coherent_empty.performAll calls') (coherent_empty.performAll calls) (filled_performAll calls') (filled_performAll calls)
    ((records_accepted calls).direct?_eq (records_accepted calls') hclasses hsame)

end Accepted

end Registry

end RowTyping
