import RowTyping.Proofs.Inference.Checkers
import RowTyping.Proofs.SchemeTable

namespace RowTyping

namespace Registry

variable {r : Registry} {className head : String} {t u : Ty} {i : ClassInstance}

section Find

theorem settle_ok {arguments : Except Ty Unit} {answer : String × Bool} (h : r.settle className t arguments = .ok answer) :
    ∃ i, r.lookup className t = some i ∧ (i.constrainsArguments = true → arguments = .ok ()) := by
  rw [settle] at h
  cases hi : r.lookup className t with
  | none => simp [hi] at h
  | some i =>
      refine ⟨i, rfl, fun hconstrains => ?_⟩
      cases arguments with
      | error => simp [hi, hconstrains, bind, Except.bind] at h
      | ok => rfl

theorem find_ok {answer : String × Bool} (h : r.find className t = .ok answer) :
    ∃ i, r.lookup className t = some i ∧ (i.constrainsArguments = true → ∀ a ∈ t.arguments, ∃ answer, r.find className a = .ok answer) := by
  have findAll_ok {ts : List Ty} (hts : r.findAll className ts = .ok ()) : ∀ a ∈ ts, ∃ answer, r.find className a = .ok answer := by
    induction ts with
    | nil => exact List.forall_mem_nil _
    | cons t ts ih =>
        rw [findAll] at hts
        cases ht : r.find className t with
        | error => simp [ht, bind, Except.bind] at hts
        | ok answer =>
            rw [ht] at hts
            exact List.forall_mem_cons.mpr ⟨⟨answer, ht⟩, ih hts⟩
  cases t with
  | app f as =>
      rw [find] at h
      exact (settle_ok h).imp fun i hi => ⟨hi.1, fun hconstrains => findAll_ok (hi.2 hconstrains)⟩
  | tuple as =>
      rw [find] at h
      exact (settle_ok h).imp fun i hi => ⟨hi.1, fun hconstrains => findAll_ok (hi.2 hconstrains)⟩
  | list a =>
      rw [find] at h
      refine (settle_ok h).imp fun i hi => ⟨hi.1, fun hconstrains => List.forall_mem_singleton.mpr ?_⟩
      cases ha : r.find className a with
      | error => simp [ha, Except.map] at hi; simp [hi.2] at hconstrains
      | ok answer => exact ⟨answer, rfl⟩
  | _ =>
      simp only [find] at h
      exact (settle_ok h).imp fun i hi => ⟨hi.1, fun _ => List.forall_mem_nil _⟩

end Find

def Regular (r : Registry) : Prop :=
  ∀ b ∈ r.instances, ∀ e ∈ b.2, e.2.head = e.1 ∧ e.1 ∉ ["Function", "Record"] ∧
    (e.1 ∈ ["List", "Tuple"] → e.2.constrainsArguments = true) ∧ ∀ decl ∈ r.classes.find? b.1, ∀ m ∈ decl.methods, (e.2.method? m).isSome

section Lookup

theorem method?_deriveFrom {decl : ClassDecl} {source : ClassInstance} {m : String} (hm : m ∈ decl.methods) :
    ((deriveFrom decl source).method? m).isSome := by
  have hkeys : m ∈ (deriveFrom decl source).methods.keys := by
    apply OrderedMap.mem_keys_ofList.mpr
    rw [List.map_map]
    exact List.mem_map.mpr ⟨m, hm, rfl⟩
  obtain ⟨method, hmethod⟩ := OrderedMap.mem_keys_iff.mp hkeys
  exact Option.isSome_iff_exists.mpr ⟨method, hmethod⟩

theorem Regular.lookupHead (hr : r.Regular) (h : r.lookupHead className head = some i) : head ∉ ["Function", "Record"] ∧
    (head ∈ ["List", "Tuple"] → i.constrainsArguments = true) ∧ ∀ decl ∈ r.classes.find? className, ∀ m ∈ decl.methods, (i.method? m).isSome := by
  rw [Registry.lookupHead] at h
  split at h
  next i' hdirect =>
    obtain rfl := Option.some.inj h
    obtain ⟨heads, hheads, hi⟩ := Option.bind_eq_some_iff.mp hdirect
    exact (hr _ (OrderedMap.mem_of_find? hheads) _ (OrderedMap.mem_of_find? hi)).2
  next =>
    obtain ⟨decl, hdecl, h⟩ := Option.bind_eq_some_iff.mp h
    obtain ⟨source, hsource, h⟩ := Option.bind_eq_some_iff.mp h
    obtain rfl := Option.some.inj h
    obtain ⟨heads, hheads, hmem⟩ := List.mem_flatMap.mp (List.mem_of_find?_eq_some hsource)
    obtain ⟨b, hb, rfl⟩ := List.mem_map.mp hheads
    obtain ⟨e, he, rfl⟩ := List.mem_map.mp hmem
    have hhead : e.2.head = head := by
      have hfound := List.find?_some hsource
      simp only [Bool.and_eq_true, beq_iff_eq] at hfound
      exact hfound.1
    obtain ⟨hkey, hnone, hconstrains, -⟩ := hr b hb e he
    rw [← hkey, hhead] at hnone hconstrains
    refine ⟨hnone, hconstrains, fun decl' hdecl' m hm => ?_⟩
    obtain rfl := Option.some.inj (hdecl.symm.trans hdecl')
    exact method?_deriveFrom hm

end Lookup

theorem eq_of_map_explicit {us ts : List Ty} (hts : ∀ t ∈ ts, ∀ u : Ty, u.explicit = t.explicit → u = t)
    (h : us.map Ty.explicit = ts.map Ty.explicit) : us = ts := by
  induction ts generalizing us with
  | nil => exact List.map_eq_nil_iff.mp h
  | cons t ts ih =>
      obtain ⟨u, us, rfl, hu, hus⟩ := List.map_eq_cons_iff.mp h
      obtain ⟨ht, hts⟩ := List.forall_mem_cons.mp hts
      rw [ht u hu, ih hts hus]

theorem Regular.find_ok (hr : r.Regular) {answer : String × Bool} (h : r.find className t = .ok answer) :
    ∃ head, t.head? = some head ∧ head ∉ ["Function", "Record"] ∧
      (head ∈ ["List", "Tuple"] → ∀ a ∈ t.arguments, ∃ answer, r.find className a = .ok answer) := by
  obtain ⟨i, hi, harguments⟩ := Registry.find_ok h
  obtain ⟨head, hhead, hi⟩ := Option.bind_eq_some_iff.mp hi
  obtain ⟨hnone, hconstrains, -⟩ := hr.lookupHead hi
  exact ⟨head, hhead, hnone, fun hmem => harguments (hconstrains hmem)⟩

theorem Regular.eq_of_explicit (hr : r.Regular) (ht : t.Shaped) {answer : String × Bool} (hfind : r.find className t = .ok answer)
    (h : u.explicit = t.explicit) : u = t := by
  obtain ⟨head, hhead, hnone, harguments⟩ := hr.find_ok hfind
  induction ht generalizing u answer head with
  | var => cases hhead
  | con name => cases u <;> cases h; rfl
  | app happ => cases happ
  | list ha ih =>
      cases hhead
      obtain ⟨answer, hfind⟩ := harguments (by decide) _ (List.mem_singleton_self _)
      obtain ⟨head, hhead, hnone, harguments⟩ := hr.find_ok hfind
      cases u with
      | list u => exact congrArg Ty.list (ih hfind (Ty.list.inj h) head hhead hnone harguments)
      | _ => cases h
  | tuple has ih =>
      cases hhead
      cases u with
      | tuple us =>
          rw [Ty.explicit, Ty.explicit, Ty.value_tuple, Ty.value_tuple] at h
          refine congrArg Ty.tuple (eq_of_map_explicit (fun a ha u hu => ?_) (Ty.tuple.inj h))
          obtain ⟨answer, hfind⟩ := harguments (by decide) a ha
          obtain ⟨head, hhead, hnone, harguments⟩ := hr.find_ok hfind
          exact ih a ha hfind hu head hhead hnone harguments
      | _ => cases h
  | fn =>
      cases hhead
      exact absurd List.mem_cons_self hnone
  | record =>
      cases hhead
      exact absurd (by decide) hnone

end Registry

namespace Prelude

def registry (load : Bool) : Registry :=
  (Registry.empty.registerAll classes (if load then instances else [])).2

theorem regular_registry (load : Bool) : (registry load).Regular := by
  unfold Registry.Regular
  cases load <;> decide +kernel

theorem mem_methods_binary (load : Bool) (op : BinaryOp) : ∀ className ∈ op.classes, ∃ m ∈ op.method?,
    ∃ decl ∈ (registry load).classes.find? className, m ∈ decl.methods := by
  have h : ∀ op ∈ BinaryOp.all, ∀ className ∈ op.classes, ∃ m ∈ op.method?,
      ∃ decl ∈ (registry load).classes.find? className, m ∈ decl.methods := by
    cases load <;> decide +kernel
  exact h op op.mem_all

theorem mem_methods_unary (load : Bool) (op : UnaryOp) : ∀ className ∈ op.classes,
    ∃ decl ∈ (registry load).classes.find? className, op.method ∈ decl.methods := by
  cases op <;> cases load <;> decide +kernel

variable {config : Config} {counters counters' : Counters} {checker : Checker} {events : List Event}

theorem build_registry (h : Checker.build config .prelude counters = (.ok (checker, counters'), events)) :
    checker.registry.classes = (registry config.loadInstances).classes ∧
      checker.registry.instances = (registry config.loadInstances).instances := by
  obtain ⟨rfl, -⟩ := Checker.build_ok h
  change (Checker.buildRegistry config .prelude).2.classes = _ ∧ (Checker.buildRegistry config .prelude).2.instances = _
  rw [Checker.buildRegistry]
  split
  next r heq =>
    have hr : registry config.loadInstances = r := congrArg Prod.snd heq
    rw [hr]
    cases config.loadInstances <;> exact ⟨rfl, rfl⟩

theorem regular_build (h : Checker.build config .prelude counters = (.ok (checker, counters'), events)) : checker.registry.Regular := by
  obtain ⟨hclasses, hinstances⟩ := build_registry h
  rw [Registry.Regular, hclasses, hinstances]
  exact regular_registry config.loadInstances

theorem provides_build (h : Checker.build config .prelude counters = (.ok (checker, counters'), events)) {n : TypedExpr}
    {d : List String × Ty} (hd : d ∈ n.dispatch?) {className : String} (hclass : className ∈ d.1) {t : Ty} {answer : String × Bool}
    (hfind : checker.registry.find className t = .ok answer) :
    ∃ m ∈ n.operatorMethod?, ∃ i, checker.registry.lookup className t = some i ∧ (i.method? m).isSome := by
  obtain ⟨i, hi, -⟩ := Registry.find_ok hfind
  obtain ⟨head, -, hlookup⟩ := Option.bind_eq_some_iff.mp hi
  have hmethods := ((regular_build h).lookupHead hlookup).2.2
  rw [(build_registry h).1] at hmethods
  suffices hdecl : ∃ m ∈ n.operatorMethod?, ∃ decl ∈ (registry config.loadInstances).classes.find? className, m ∈ decl.methods by
    obtain ⟨m, hm, decl, hdecl, hmem⟩ := hdecl
    exact ⟨m, hm, i, hi, hmethods decl hdecl m hmem⟩
  cases n with
  | binary info op l r =>
      rw [TypedExpr.dispatch?] at hd
      split at hd
      · cases hd
      · cases hd
        exact mem_methods_binary _ op className hclass
  | unary info op operand =>
      rw [TypedExpr.dispatch?] at hd
      split at hd
      · cases hd
      · cases hd
        exact ⟨op.method, rfl, mem_methods_unary _ op className hclass⟩
  | _ => cases hd

end Prelude

end RowTyping
