import RowTyping.Proofs.Registry.Registration

namespace RowTyping

namespace Registry

open Relation

variable {r r' : Registry} {decl : ClassDecl} {source i : ClassInstance} {c head m : String} {t : Ty}

section Derived

theorem eq_derived_of_mem {method : Method} (h : (m, method) ∈ (deriveFrom decl source).methods) :
    m ∈ decl.methods ∧ method = .derived source.className m := by
  rcases OrderedMap.mem_merge h with h | h
  · cases h
  · obtain ⟨_, hm, heq⟩ := List.mem_map.mp h
    cases heq
    exact ⟨hm, rfl⟩

theorem method?_deriveFrom_eq (decl : ClassDecl) (source : ClassInstance) (m : String) :
    (deriveFrom decl source).method? m = if m ∈ decl.methods then some (.derived source.className m) else none := by
  split
  next hm =>
    have hsome : ((deriveFrom decl source).method? m).isSome = true := method?_deriveFrom hm
    obtain ⟨method, hmethod⟩ := Option.isSome_iff_exists.mp hsome
    rw [hmethod, (eq_derived_of_mem (OrderedMap.mem_of_find? hmethod)).2]
  next hm =>
    refine Option.eq_none_iff_forall_ne_some.mpr fun method hmethod => hm ?_
    exact (eq_derived_of_mem (OrderedMap.mem_of_find? hmethod)).1

theorem isDerived_deriveFrom : (deriveFrom decl source).isDerived = true ↔ decl.methods ≠ [] := by
  constructor
  · rintro h hnil
    obtain ⟨method, hmethod, -⟩ := List.any_eq_true.mp h
    obtain ⟨⟨m, method⟩, hmem, rfl⟩ := List.mem_map.mp hmethod
    exact List.not_mem_nil (hnil ▸ (eq_derived_of_mem hmem).1)
  · intro h
    obtain ⟨m, hm⟩ := List.exists_mem_of_ne_nil _ h
    have hmethod : (deriveFrom decl source).method? m = some (.derived source.className m) := by
      rw [method?_deriveFrom_eq, if_pos hm]
    exact ClassInstance.Via.isDerived ⟨m, m, OrderedMap.mem_of_find? hmethod⟩

end Derived

section Lookup

variable {given : List ClassInstance}

theorem lookupHead_congr (hclasses : r'.classes = r.classes) (hinstances : r'.instances = r.instances) (c head : String) :
    r'.lookupHead c head = r.lookupHead c head := by
  obtain ⟨classes, instances, _, _, _⟩ := r
  obtain ⟨_, _, _, _, _⟩ := r'
  cases hclasses
  cases hinstances
  rfl

theorem Records.mem_allInstances_iff (h : r.Records given) (hcoherent : r.Coherent) :
    i ∈ r.allInstances ↔ ∃ j ∈ given, i = { j with superclasses := r.superclassesOf j.className } := by
  constructor
  · intro hi
    have hdirect := hcoherent.direct?_of_mem hi
    obtain ⟨j, hj, hname, hhead⟩ := h.given _ _ i hdirect
    rw [← hname, ← hhead, h.kept j hj] at hdirect
    exact ⟨j, hj, (Option.some.inj hdirect).symm⟩
  · rintro ⟨j, hj, rfl⟩
    exact mem_allInstances_of_direct? (h.kept j hj)

theorem Records.isSome_lookupHead_iff (h : r.Records given) (hcoherent : r.Coherent) : (r.lookupHead c head).isSome = true ↔
    ∃ i ∈ given, i.head = head ∧ (i.className = c ∨ c ∈ r.superclassClosure i.className) := by
  rw [hcoherent.isSome_lookupHead_iff]
  constructor
  · rintro ⟨i, hi, hhead, hclass⟩
    obtain ⟨j, hj, rfl⟩ := (h.mem_allInstances_iff hcoherent).mp hi
    exact ⟨j, hj, hhead, hclass.imp_right hcoherent.known.mem_superclassClosure_iff.mpr⟩
  · rintro ⟨j, hj, hhead, hclass⟩
    exact ⟨_, (h.mem_allInstances_iff hcoherent).mpr ⟨j, hj, rfl⟩, hhead,
      hclass.imp_right hcoherent.known.mem_superclassClosure_iff.mp⟩

theorem Records.lookupHead_derived (h : r.Records given) (hcoherent : r.Coherent) (hnone : ∀ j ∈ given, j.head = head → j.className ≠ c)
    (hi : r.lookupHead c head = some i) : ∃ decl, r.classes.find? c = some decl ∧ ∃ source ∈ given, source.head = head ∧
      c ∈ r.superclassClosure source.className ∧ i = deriveFrom decl source := by
  obtain ⟨decl, hdecl, source, hsource, hhead, hclosure, rfl⟩ :=
    Registry.lookupHead_derived (h.direct?_eq_none_iff.mpr hnone) hi
  obtain ⟨j, hj, rfl⟩ := (h.mem_allInstances_iff hcoherent).mp hsource
  exact ⟨decl, hdecl, j, hj, hhead, hclosure, rfl⟩

theorem Coherent.isSome_lookupHead_of_mem (h : r.Coherent) {s : String} (hs : s ∈ r.superclassClosure c)
    (hc : (r.lookupHead c head).isSome = true) : (r.lookupHead s head).isSome = true :=
  h.lookup_of_inherits (t := .con head) (h.known.mem_superclassClosure_iff.mp hs) hc

theorem lookupHead_hierarchy (calls : List Call) (c head : String) :
    let r := (empty.performAll calls).2
    let given := empty.accepted calls
    ((r.lookupHead c head).isSome = true ↔ ∃ i ∈ given, i.head = head ∧ (i.className = c ∨ c ∈ r.superclassClosure i.className)) ∧
    (∀ i ∈ given, i.head = head → i.className = c → r.lookupHead c head = some { i with superclasses := r.superclassesOf c }) ∧
    ((∀ j ∈ given, j.head = head → j.className ≠ c) → ∀ i, r.lookupHead c head = some i → ∃ decl, r.classes.find? c = some decl ∧
      ∃ source ∈ given, source.head = head ∧ c ∈ r.superclassClosure source.className ∧ i = deriveFrom decl source ∧
      ∀ m, i.method? m = if m ∈ decl.methods then some (.derived source.className m) else none) ∧
    ((r.lookupHead c head).isSome = true → ∀ s ∈ r.superclassClosure c, (r.lookupHead s head).isSome = true) ∧
    (∀ calls', (empty.performAll calls').2.classes = r.classes → (∀ i, i ∈ empty.accepted calls' ↔ i ∈ given) →
      (empty.performAll calls').2.lookupHead c head = r.lookupHead c head) ∧
    ∀ is js : List ClassInstance, is.Perm js → (r.register registerInstance is).1 = [] →
      r.register registerInstance js = r.register registerInstance is := by
  intro r given
  have hcoherent : r.Coherent := coherent_empty.performAll calls
  have hrecords : r.Records given := records_accepted calls
  refine ⟨hrecords.isSome_lookupHead_iff hcoherent, ?_, fun hnone i hi => ?_, fun hc s hs => ?_, fun calls' hclasses hsame => ?_,
    fun is js hperm => ?_⟩
  · rintro i hi rfl rfl
    exact lookupHead_of_direct? (hrecords.kept i hi)
  · obtain ⟨decl, hdecl, source, hsource, hhead, hclosure, rfl⟩ := hrecords.lookupHead_derived hcoherent hnone hi
    exact ⟨decl, hdecl, source, hsource, hhead, hclosure, rfl, method?_deriveFrom_eq decl source⟩
  · exact hcoherent.isSome_lookupHead_of_mem hs hc
  · exact lookupHead_congr hclasses (instances_performAll_congr hclasses hsame) c head
  · exact register_perm hperm hcoherent (filled_performAll calls)

example : ((empty.performAll [.registerClass ⟨"Eq", [], ["eq"], none⟩, .registerClass ⟨"Ord", ["Eq"], ["lt"], none⟩,
    .registerInstance (.builtin "Ord" "Int" ["lt"]), .registerClass ⟨"Hash", ["Eq"], ["hash"], none⟩,
    .registerInstance (.builtin "Hash" "Int" ["hash"])]).2.lookupHead "Eq" "Int").map ClassInstance.methods =
    some [("eq", .derived "Hash" "eq")] := by
  decide +kernel

end Lookup

section Flag

theorem settle_answer {arguments : Except Ty Unit} {answer : String × Bool} (h : r.settle c t arguments = .ok answer) :
    ∃ i, r.lookup c t = some i ∧ answer = (i.head, i.isDerived) := by
  obtain ⟨i, hi, harguments⟩ := settle_ok h
  refine ⟨i, hi, ?_⟩
  cases hconstrains : i.constrainsArguments with
  | false =>
      simp only [settle, hi, hconstrains] at h
      exact (Except.ok.inj h).symm
  | true =>
      simp only [settle, hi, hconstrains, harguments hconstrains] at h
      exact (Except.ok.inj h).symm

theorem find_answer {answer : String × Bool} (h : r.find c t = .ok answer) :
    ∃ i, r.lookup c t = some i ∧ answer = (i.head, i.isDerived) := by
  cases t <;> exact settle_answer h

theorem resolve_answer {k : ClassConstraint} {e : Resolution} (h : r.resolve k = .ok e) :
    ∃ i, r.lookup k.className k.ty = some i ∧ e.head = i.head ∧ e.derived = i.isDerived := by
  rw [resolve] at h
  split at h
  · cases h
  · split at h
    · cases h
    next head derived hfind =>
      cases h
      obtain ⟨i, hi, heq⟩ := find_answer hfind
      exact ⟨i, hi, (Prod.mk.inj heq).1, (Prod.mk.inj heq).2⟩

theorem resolve_derived_flag {calls : List Call} (hcalls : ∀ call ∈ calls, call.Builtin) {k : ClassConstraint} {e : Resolution}
    (hk : (empty.performAll calls).2.resolve k = .ok e) :
    k.ty.head? = some e.head ∧ ∃ decl, (empty.performAll calls).2.classes.find? k.className = some decl ∧
      (e.derived = true ↔
        (∀ i ∈ empty.accepted calls, i.head = e.head → i.className ≠ k.className) ∧ decl.methods ≠ []) := by
  have hcoherent := coherent_empty.performAll calls
  have hrecords := records_accepted calls
  obtain ⟨i, hi, hhead, hderived⟩ := resolve_answer hk
  obtain ⟨head, hty, hi⟩ := Option.bind_eq_some_iff.mp hi
  rw [hhead, hderived]
  cases hdirect : (empty.performAll calls).2.direct? k.className head with
  | some i' =>
      obtain rfl := Option.some.inj ((lookupHead_of_direct? hdirect).symm.trans hi)
      obtain ⟨-, rfl, decl, hdecl, -⟩ := hcoherent.stored_of_direct? hdirect
      refine ⟨hty, decl, hdecl, iff_of_false ?_ fun hnone => ?_⟩
      · rw [primitive_performAll hcalls i' (mem_allInstances_of_direct? hdirect)]
        exact Bool.false_ne_true
      · cases hdirect.symm.trans (hrecords.direct?_eq_none_iff.mpr hnone.1)
  | none =>
      obtain ⟨decl, hdecl, source, -, rfl, -, rfl⟩ := lookupHead_derived hdirect hi
      exact ⟨hty, decl, hdecl, isDerived_deriveFrom.trans (and_iff_right (hrecords.direct?_eq_none_iff.mp hdirect)).symm⟩

theorem resolve_derived_flag_element :
    let calls : List Call := [.registerClass ⟨"Eq", [], ["eq"], none⟩, .registerClass ⟨"Ord", ["Eq"], ["lt"], none⟩,
      .registerInstance (.builtin "Ord" "Int" ["lt"]),
      .registerInstance (ClassInstance.builtin "Eq" "List" ["eq"]).withArgumentContext]
    let r := (empty.performAll calls).2
    (∀ call ∈ calls, call.Builtin) ∧
      r.resolve ⟨"Eq", .list .int, [], 0, .operator⟩ = .ok ⟨0, "Eq", .list .int, none, "List", false⟩ ∧
      ¬ (∀ i ∈ empty.accepted calls, i.head = "List" → i.className ≠ "Eq") ∧
      r.resolve ⟨"Eq", .int, [], 1, .operator⟩ = .ok ⟨1, "Eq", .int, none, "Int", true⟩ ∧
      ∀ i ∈ empty.accepted calls, i.head = "Int" → i.className ≠ "Eq" := by
  intro calls r
  have hcalls : ∀ call ∈ calls, call.Builtin := by
    simp only [calls, List.forall_mem_cons, Call.Builtin]
    exact ⟨trivial, trivial, ⟨_, _, _, .inl rfl⟩, ⟨_, _, _, .inr rfl⟩, List.forall_mem_nil _⟩
  have hlist : r.resolve ⟨"Eq", .list .int, [], 0, .operator⟩ = .ok ⟨0, "Eq", .list .int, none, "List", false⟩ := by decide +kernel
  have hint : r.resolve ⟨"Eq", .int, [], 1, .operator⟩ = .ok ⟨1, "Eq", .int, none, "Int", true⟩ := by decide +kernel
  have heq : r.classes.find? "Eq" = some ⟨"Eq", [], ["eq"], none⟩ := by decide +kernel
  obtain ⟨-, decl, hdecl, hlistFlag⟩ := resolve_derived_flag hcalls hlist
  obtain rfl := Option.some.inj (heq.symm.trans hdecl)
  obtain ⟨-, _, -, hintFlag⟩ := resolve_derived_flag hcalls hint
  exact ⟨hcalls, hlist, fun hnone => Bool.false_ne_true (hlistFlag.mpr ⟨hnone, List.cons_ne_nil _ _⟩), hint, (hintFlag.mp rfl).1⟩

theorem resolve_derived_flag_unmarked :
    let calls : List Call := [.registerClass ⟨"Eq", [], [], none⟩, .registerClass ⟨"Ord", ["Eq"], ["lt"], none⟩,
      .registerInstance (.builtin "Ord" "Int" ["lt"])]
    (∀ call ∈ calls, call.Builtin) ∧
      (empty.performAll calls).2.resolve ⟨"Eq", .int, [], 0, .operator⟩ = .ok ⟨0, "Eq", .int, none, "Int", false⟩ ∧
      ∀ i ∈ empty.accepted calls, i.head = "Int" → i.className ≠ "Eq" := by
  intro calls
  have hcalls : ∀ call ∈ calls, call.Builtin := by
    simp only [calls, List.forall_mem_cons, Call.Builtin]
    exact ⟨trivial, trivial, ⟨_, _, _, .inl rfl⟩, List.forall_mem_nil _⟩
  exact ⟨hcalls, by decide +kernel, by decide +kernel⟩

end Flag

end Registry

end RowTyping
