import RowTyping.Proofs.Dictionaries
import RowTyping.Proofs.Registry.Coherence

namespace RowTyping

namespace ClassInstance

def Via (i : ClassInstance) (c : String) : Prop :=
  ∃ name m, (name, Method.derived c m) ∈ i.methods

theorem Via.isDerived {i : ClassInstance} {c : String} (h : i.Via c) : i.isDerived = true := by
  obtain ⟨name, m, hmem⟩ := h
  exact List.any_eq_true.mpr ⟨_, List.mem_map_of_mem hmem, rfl⟩

theorem isDerived_builtin (className head : String) (methods : List String) :
    (builtin className head methods).isDerived = false := by
  refine List.any_eq_false.mpr fun method hmethod => ?_
  obtain ⟨⟨name, method⟩, hmem, rfl⟩ := List.mem_map.mp hmethod
  rcases OrderedMap.mem_merge hmem with hmem | hmem
  · cases hmem
  · obtain ⟨m, -, heq⟩ := List.mem_map.mp hmem
    cases heq
    exact Bool.false_ne_true

end ClassInstance

namespace Registry

open Relation

variable {r r' : Registry} {c d : String} {t u : Ty} {i : ClassInstance}

section Resolving

theorem find_of_lookup (hi : r.lookup c t = some i)
    (h : i.constrainsArguments = true → ∀ a ∈ t.arguments, ∃ answer, r.find c a = .ok answer) :
    ∃ answer, r.find c t = .ok answer := by
  have settle {arguments : Except Ty Unit} (h : i.constrainsArguments = true → arguments = .ok ()) :
      ∃ answer, r.settle c t arguments = .ok answer := by
    refine ⟨(i.head, i.isDerived), ?_⟩
    cases hconstrains : i.constrainsArguments with
    | false => simp [Registry.settle, hi, hconstrains, pure, Except.pure]
    | true => simp [Registry.settle, hi, hconstrains, h hconstrains, bind, Except.bind, pure, Except.pure]
  have findAll {ts : List Ty} (hts : ∀ a ∈ ts, ∃ answer, r.find c a = .ok answer) : r.findAll c ts = .ok () := by
    induction ts with
    | nil => rfl
    | cons a ts ih =>
        obtain ⟨⟨answer, ha⟩, hts⟩ := List.forall_mem_cons.mp hts
        rw [Registry.findAll, ha]
        exact ih hts
  cases t with
  | app f as => exact settle fun hconstrains => findAll (h hconstrains)
  | tuple as => exact settle fun hconstrains => findAll (h hconstrains)
  | list a =>
      refine settle fun hconstrains => ?_
      obtain ⟨answer, ha⟩ := h hconstrains a (List.mem_singleton_self a)
      rw [ha]
      rfl
  | _ => exact settle fun _ => rfl

theorem ground_arguments (h : t.isGround = true) : ∀ a ∈ t.arguments, a.isGround = true := by
  intro a ha
  refine Ty.isGround_iff.mpr fun v hv => Ty.isGround_iff.mp h v ?_
  cases t with
  | app => exact Ty.mem_vars_app.mpr (.inr ⟨a, ha, hv⟩)
  | tuple => exact Ty.mem_vars_tuple.mpr ⟨a, ha, hv⟩
  | list => exact Ty.mem_vars_list.mpr (List.mem_singleton.mp ha ▸ hv)
  | _ => cases ha

def Resolves (r : Registry) (c : String) (t : Ty) : Prop :=
  ∀ path node origin, ∃ e, r.resolve ⟨c, t, path, node, origin⟩ = .ok e

theorem find_of_resolve {k : ClassConstraint} {e : Resolution} (h : r.resolve k = .ok e) :
    k.ty.isGround = true ∧ ∃ answer, r.find k.className k.ty = .ok answer := by
  have answers := resolve_ok h
  have hfind := resolve_finds h
  rw [answers.className, answers.ty] at hfind
  exact ⟨answers.ty ▸ answers.ground, hfind⟩

theorem resolves_iff_find : r.Resolves c t ↔ t.isGround = true ∧ ∃ answer, r.find c t = .ok answer := by
  constructor
  · intro h
    obtain ⟨e, he⟩ := h [] 0 .literal
    exact find_of_resolve he
  · rintro ⟨hground, ⟨head, derived⟩, hfind⟩ path node origin
    refine ⟨⟨node, c, t, none, head, derived⟩, ?_⟩
    simp only [resolve, ClassConstraint.isGround, hground, hfind]
    rfl

theorem resolves_iff (hground : t.isGround = true) : r.Resolves c t ↔ ∃ i, r.lookup c t = some i ∧
    (i.constrainsArguments = true → ∀ a ∈ t.arguments, r.Resolves c a) := by
  have hargument : ∀ a ∈ t.arguments, r.Resolves c a ↔ ∃ answer, r.find c a = .ok answer :=
    fun a ha => resolves_iff_find.trans (and_iff_right (ground_arguments hground a ha))
  rw [resolves_iff_find, and_iff_right hground]
  constructor
  · rintro ⟨answer, hfind⟩
    obtain ⟨i, hi, harguments⟩ := find_ok hfind
    exact ⟨i, hi, fun hconstrains a ha => (hargument a ha).mpr (harguments hconstrains a ha)⟩
  · rintro ⟨i, hi, harguments⟩
    exact find_of_lookup hi fun hconstrains a ha => (hargument a ha).mp (harguments hconstrains a ha)

theorem Resolves.arguments (h : r.Resolves c t) (hi : r.lookup c t = some i) (hconstrains : i.constrainsArguments = true) :
    ∀ a ∈ t.arguments, r.Resolves c a := by
  obtain ⟨i', hi', harguments⟩ := (resolves_iff (resolves_iff_find.mp h).1).mp h
  obtain rfl := Option.some.inj (hi.symm.trans hi')
  exact harguments hconstrains

/-- The types that an instance of the class is looked up for to resolve it on a type. -/
inductive Visits (r : Registry) (c : String) : Ty → Ty → Prop
  | here (t : Ty) : Visits r c t t
  | argument {t a u : Ty} {i : ClassInstance} : r.lookup c t = some i → i.constrainsArguments = true → a ∈ t.arguments →
      Visits r c a u → Visits r c t u

theorem Visits.resolves (hu : r.Visits c t u) (h : r.Resolves c t) : r.Resolves c u := by
  induction hu with
  | here => exact h
  | argument hi hconstrains ha _ ih => exact ih (h.arguments hi hconstrains _ ha)

end Resolving

section Deriving

theorem lookupHead_of_direct? {head : String} (h : r.direct? c head = some i) : r.lookupHead c head = some i := by
  rw [lookupHead, h]

theorem lookupHead_derived {head : String} (hnone : r.direct? c head = none) (h : r.lookupHead c head = some i) :
    ∃ decl, r.classes.find? c = some decl ∧ ∃ source ∈ r.allInstances, source.head = head ∧
      c ∈ r.superclassClosure source.className ∧ i = deriveFrom decl source := by
  rw [lookupHead, hnone] at h
  obtain ⟨decl, hdecl, h⟩ := Option.bind_eq_some_iff.mp h
  obtain ⟨source, hsource, h⟩ := Option.bind_eq_some_iff.mp h
  have hfound := List.find?_some hsource
  simp only [Bool.and_eq_true, beq_iff_eq, List.contains_iff_mem] at hfound
  exact ⟨decl, hdecl, source, List.mem_of_find?_eq_some hsource, hfound.1, hfound.2, (Option.some.inj h).symm⟩

theorem lookupHead_cases {head : String} (h : r.lookupHead c head = some i) : r.direct? c head = some i ∨
    ∃ decl, ∃ source ∈ r.allInstances, source.head = head ∧ c ∈ r.superclassClosure source.className ∧
      i = deriveFrom decl source := by
  cases hdirect : r.direct? c head with
  | some i' => exact .inl ((lookupHead_of_direct? hdirect).symm.trans h)
  | none => exact .inr ((lookupHead_derived hdirect h).imp fun _ hderived => hderived.2)

theorem mem_allInstances : i ∈ r.allInstances ↔ ∃ b ∈ r.instances, ∃ e ∈ b.2, e.2 = i := by
  simp only [allInstances, OrderedMap.values, List.mem_flatMap, List.mem_map, exists_exists_and_eq_and]

theorem mem_allInstances_of_direct? {head : String} (h : r.direct? c head = some i) : i ∈ r.allInstances := by
  obtain ⟨heads, hheads, hi⟩ := Option.bind_eq_some_iff.mp h
  exact mem_allInstances.mpr ⟨_, OrderedMap.mem_of_find? hheads, _, OrderedMap.mem_of_find? hi, rfl⟩

theorem Coherent.direct?_of_mem (h : r.Coherent) (hi : i ∈ r.allInstances) : r.direct? i.className i.head = some i := by
  obtain ⟨b, hb, e, he, rfl⟩ := mem_allInstances.mp hi
  have hstored := h.stored b hb e he
  rw [hstored.className, hstored.head, direct?, h.instances.find?_of_mem hb]
  exact (h.heads b hb).find?_of_mem he

theorem eq_of_via_deriveFrom {decl : ClassDecl} {source : ClassInstance} (h : (deriveFrom decl source).Via d) :
    d = source.className := by
  obtain ⟨name, m, hmem⟩ := h
  rcases OrderedMap.mem_merge hmem with hmem | hmem
  · cases hmem
  · obtain ⟨_, -, heq⟩ := List.mem_map.mp hmem
    cases heq
    rfl

def Primitive (r : Registry) : Prop :=
  ∀ i ∈ r.allInstances, i.isDerived = false

theorem Coherent.source (h : r.Coherent) (hprimitive : r.Primitive) (hi : r.lookup c t = some i) (hvia : i.Via d) :
    TransGen r.Inherits d c ∧ ∃ source, r.lookup d t = some source ∧ source.isDerived = false ∧
      source.constrainsArguments = i.constrainsArguments := by
  obtain ⟨head, hhead, hi⟩ := Option.bind_eq_some_iff.mp hi
  rcases lookupHead_cases hi with hdirect | ⟨decl, source, hsource, rfl, hclosure, rfl⟩
  · exact absurd ((hprimitive i (mem_allInstances_of_direct? hdirect)).symm.trans hvia.isDerived) Bool.false_ne_true
  · cases eq_of_via_deriveFrom hvia
    have hdirect := h.direct?_of_mem hsource
    refine ⟨h.known.mem_superclassClosure_iff.mp hclosure, source, ?_, hprimitive source hsource, rfl⟩
    rw [lookup, hhead, Option.bind_some, lookupHead_of_direct? hdirect]

def Call.Builtin : Call → Prop
  | .registerInstance i => ∃ className head methods, i = .builtin className head methods ∨
      i = (ClassInstance.builtin className head methods).withArgumentContext
  | _ => True

theorem Primitive.perform {call : Call} (h : r.Primitive) (hcall : call.Builtin) (hr : perform call r = (.ok (), r')) : r'.Primitive := by
  cases call with
  | registerClass =>
      obtain ⟨-, -, -, rfl⟩ := registerClass_ok hr
      exact h
  | registerInstance i =>
      intro j hj
      obtain ⟨b, hb, e, he, rfl⟩ := mem_allInstances.mp hj
      rcases mem_registerInstance hr hb he with ⟨_, _, _, rfl⟩ | ⟨b', hb', _, he⟩
      · obtain ⟨className, head, methods, rfl | rfl⟩ := hcall
        · exact ClassInstance.isDerived_builtin className head methods
        · exact ClassInstance.isDerived_builtin className head methods
      · exact h e.2 (mem_allInstances.mpr ⟨b', hb', e, he, rfl⟩)
  | setModuleDefault =>
      cases hr
      exact h
  | freeze =>
      cases hr
      exact h

theorem primitive_performAll {calls : List Call} (h : ∀ call ∈ calls, call.Builtin) : (empty.performAll calls).2.Primitive :=
  register_invariant (P := Primitive) steady_perform (fun call hcall _ _ hr => hr.perform (h call hcall)) (List.forall_mem_nil _)

theorem resolves_derived_iff {calls : List Call} (hcalls : ∀ call ∈ calls, call.Builtin) {k : ClassConstraint} {e : Resolution}
    (hk : (empty.performAll calls).2.resolve k = .ok e) (hu : (empty.performAll calls).2.Visits k.className k.ty u)
    (hi : (empty.performAll calls).2.lookup k.className u = some i) (hvia : i.Via d) :
    TransGen (empty.performAll calls).2.Inherits d k.className ∧
      (∃ source, (empty.performAll calls).2.lookup d u = some source ∧ source.isDerived = false ∧
        source.constrainsArguments = i.constrainsArguments) ∧
      (i.constrainsArguments = true → ∀ a ∈ u.arguments, (empty.performAll calls).2.Resolves k.className a) ∧
      ((empty.performAll calls).2.Resolves d u ↔
        (i.constrainsArguments = true → ∀ a ∈ u.arguments, (empty.performAll calls).2.Resolves d a)) := by
  have hresolves := hu.resolves (resolves_iff_find.mpr (find_of_resolve hk))
  obtain ⟨hinherits, source, hsource, hdirect, hsame⟩ :=
    (coherent_empty.performAll calls).source (primitive_performAll hcalls) hi hvia
  refine ⟨hinherits, ⟨source, hsource, hdirect, hsame⟩, hresolves.arguments hi, ?_⟩
  rw [resolves_iff (resolves_iff_find.mp hresolves).1, ← hsame]
  constructor
  · rintro ⟨source', hsource', harguments⟩
    obtain rfl := Option.some.inj (hsource.symm.trans hsource')
    exact harguments
  · exact fun harguments => ⟨source, hsource, harguments⟩

theorem resolves_derived_list :
    let calls : List Call := [.registerClass ⟨"Eq", [], ["eq"], none⟩, .registerClass ⟨"Ord", ["Eq"], ["lt"], none⟩,
      .registerInstance (.builtin "Ord" "Int" ["lt"]),
      .registerInstance (ClassInstance.builtin "Ord" "List" ["lt"]).withArgumentContext]
    let r := (empty.performAll calls).2
    let k : ClassConstraint := ⟨"Eq", .list (.list .int), [], 0, .operator⟩
    r.resolve k = .ok ⟨0, "Eq", .list (.list .int), none, "List", true⟩ ∧ r.Visits "Eq" k.ty (.list .int) ∧
      TransGen r.Inherits "Ord" "Eq" ∧ r.Resolves "Ord" (.list .int) := by
  intro calls r k
  have hcalls : ∀ call ∈ calls, call.Builtin := by
    simp only [calls, List.forall_mem_cons, Call.Builtin]
    exact ⟨trivial, trivial, ⟨_, _, _, .inl rfl⟩, ⟨_, _, _, .inr rfl⟩, List.forall_mem_nil _⟩
  have hresolve : r.resolve k = .ok ⟨0, "Eq", .list (.list .int), none, "List", true⟩ := by decide +kernel
  have hlookup : r.lookup "Eq" (.list .int) = some ⟨"Eq", "List", [("eq", .derived "Ord" "eq")], [], true⟩ := by decide +kernel
  have hvisits : r.Visits "Eq" k.ty (.list .int) :=
    .argument (i := ⟨"Eq", "List", [("eq", .derived "Ord" "eq")], [], true⟩) (by decide +kernel) rfl (List.mem_singleton_self _)
      (.here _)
  have hint : r.Resolves "Ord" .int := resolves_iff_find.mpr ⟨by decide, ("Int", false), by decide +kernel⟩
  obtain ⟨hinherits, -, -, hiff⟩ := resolves_derived_iff hcalls hresolve hvisits hlookup (d := "Ord")
    ⟨"eq", "eq", List.mem_singleton_self _⟩
  exact ⟨hresolve, hvisits, hinherits, hiff.mpr fun _ => List.forall_mem_singleton.mpr hint⟩

theorem resolves_derived_without_source :
    let calls : List Call := [.registerClass ⟨"Eq", [], ["eq"], none⟩, .registerClass ⟨"Ord", ["Eq"], ["lt"], none⟩,
      .registerInstance (ClassInstance.builtin "Ord" "List" ["lt"]).withArgumentContext,
      .registerInstance (.builtin "Eq" "Blob" ["eq"])]
    let r := (empty.performAll calls).2
    let t := Ty.list (.con "Blob")
    (∀ call ∈ calls, call.Builtin) ∧ t.isGround = true ∧ r.Resolves "Eq" t ∧ r.Visits "Eq" t t ∧
      (∃ i, r.lookup "Eq" t = some i ∧ i.Via "Ord") ∧ ¬ r.Resolves "Ord" t := by
  intro calls r t
  have hcalls : ∀ call ∈ calls, call.Builtin := by
    simp only [calls, List.forall_mem_cons, Call.Builtin]
    exact ⟨trivial, trivial, ⟨_, _, _, .inr rfl⟩, ⟨_, _, _, .inl rfl⟩, List.forall_mem_nil _⟩
  have hfound : r.find "Eq" t = .ok ("List", true) := by decide +kernel
  have hlookup : r.lookup "Eq" t = some ⟨"Eq", "List", [("eq", .derived "Ord" "eq")], [], true⟩ := by decide +kernel
  have hmissing : r.find "Ord" t = .error (.con "Blob") := by decide +kernel
  refine ⟨hcalls, by decide, resolves_iff_find.mpr ⟨by decide, _, hfound⟩, .here t,
    ⟨_, hlookup, "eq", "eq", List.mem_singleton_self _⟩, fun h => ?_⟩
  obtain ⟨answer, hanswer⟩ := (resolves_iff_find.mp h).2
  cases hmissing.symm.trans hanswer

end Deriving

end Registry

end RowTyping
