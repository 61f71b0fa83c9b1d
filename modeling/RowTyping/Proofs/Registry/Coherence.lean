import RowTyping.Proofs.Inference.Checkers
import RowTyping.Proofs.Registry.Superclasses

namespace RowTyping

namespace Registry

open Relation TryM

inductive Call where
  | registerClass (decl : ClassDecl)
  | registerInstance (i : ClassInstance)
  | setModuleDefault (t : Ty)
  | freeze

def perform : Call → RegistryM Unit
  | .registerClass decl => registerClass decl
  | .registerInstance i => registerInstance i
  | .setModuleDefault t => modify fun r => { r with moduleDefault := t }
  | .freeze => modify freeze

theorem steady_perform (call : Call) : (perform call).Steady := by
  intro r d r' h
  cases call with
  | registerClass decl => exact steady_registerClass decl r d r' h
  | registerInstance i => exact steady_registerInstance i r d r' h
  | setModuleDefault => cases h
  | freeze => cases h

abbrev performAll (r : Registry) (calls : List Call) : List Diagnostic × Registry :=
  r.register perform calls

variable {r r' : Registry} {decl : ClassDecl} {i : ClassInstance} {c s head : String}

section Inversion

theorem find?_registerClass (h : registerClass decl r = (.ok (), r')) (c : String) :
    r'.classes.find? c = if c = decl.name then some decl else r.classes.find? c := by
  obtain ⟨-, -, -, rfl⟩ := registerClass_ok h
  exact OrderedMap.find?_insert _ _ _ _

theorem direct?_registerInstance (h : registerInstance i r = (.ok (), r')) (c head : String) : r'.direct? c head =
    if c = i.className ∧ head = i.head then some { i with superclasses := r.superclassesOf i.className } else r.direct? c head := by
  obtain ⟨-, -, decl, hdecl, rfl⟩ := registerInstance_ok h
  rw [superclassesOf, hdecl, direct?, direct?, OrderedMap.find?_insert]
  by_cases hc : c = i.className
  · subst hc
    rw [if_pos rfl, Option.bind_some, OrderedMap.find?_insert]
    cases r.instances.find? i.className <;> simp [OrderedMap.find?_nil]
  · rw [if_neg hc, if_neg fun h => hc h.1]

def Stores (r r' : Registry) : Call → Prop
  | .registerClass decl => r'.instances = r.instances ∧
      ∀ c, r'.classes.find? c = if c = decl.name then some decl else r.classes.find? c
  | .registerInstance i => r'.classes = r.classes ∧ ∀ c head, r'.direct? c head =
      if c = i.className ∧ head = i.head then some { i with superclasses := r.superclassesOf i.className } else r.direct? c head
  | .setModuleDefault t => r' = { r with moduleDefault := t }
  | .freeze => r' = { r with frozen := true }

theorem stores_perform {call : Call} (h : perform call r = (.ok (), r')) : r.Stores r' call := by
  cases call with
  | registerClass decl =>
      refine ⟨?_, find?_registerClass h⟩
      obtain ⟨-, -, -, rfl⟩ := registerClass_ok h
      rfl
  | registerInstance i =>
      refine ⟨?_, direct?_registerInstance h⟩
      obtain ⟨-, -, decl, -, rfl⟩ := registerInstance_ok h
      rfl
  | setModuleDefault => exact (congrArg Prod.snd h).symm
  | freeze => exact (congrArg Prod.snd h).symm

theorem inherits_registerClass (h : registerClass decl r = (.ok (), r')) (hs : r'.Inherits c s) :
    c = decl.name ∧ s ∈ decl.superclasses ∨ r.Inherits c s := by
  obtain ⟨decl', hdecl', hs⟩ := inherits_iff.mp hs
  rw [find?_registerClass h] at hdecl'
  split at hdecl'
  next hc => exact .inl ⟨hc, Option.some.inj hdecl' ▸ hs⟩
  next => exact .inr (inherits_iff.mpr ⟨decl', hdecl', hs⟩)

theorem mem_registerInstance (h : registerInstance i r = (.ok (), r')) {b : String × OrderedMap String ClassInstance}
    (hb : b ∈ r'.instances) {e : String × ClassInstance} (he : e ∈ b.2) :
    (∃ decl, r.classes.find? b.1 = some decl ∧ b.1 = i.className ∧
        e = (i.head, { i with superclasses := decl.superclasses })) ∨
      ∃ b' ∈ r.instances, b'.1 = b.1 ∧ e ∈ b'.2 := by
  obtain ⟨-, -, decl, hdecl, rfl⟩ := registerInstance_ok h
  rcases OrderedMap.mem_insert hb with rfl | hb
  · rcases OrderedMap.mem_insert he with rfl | he
    · exact .inl ⟨decl, hdecl, rfl, rfl⟩
    · cases hold : r.instances.find? i.className with
      | none => simp [hold] at he
      | some heads => exact .inr ⟨_, OrderedMap.mem_of_find? hold, rfl, by simpa [hold] using he⟩
  · exact .inr ⟨b, hb, rfl, he⟩

end Inversion

structure Stored (r : Registry) (c head : String) (i : ClassInstance) : Prop where
  className : i.className = c
  head : i.head = head
  superclasses : ∃ decl, r.classes.find? c = some decl ∧ i.superclasses = decl.superclasses

theorem Stored.congr (h : r.Stored c head i) (hfind : ∀ decl, r.classes.find? c = some decl → r'.classes.find? c = some decl) :
    r'.Stored c head i := by
  obtain ⟨hname, hhead, decl, hdecl, hsame⟩ := h
  exact ⟨hname, hhead, decl, hfind decl hdecl, hsame⟩

structure Coherent (r : Registry) : Prop where
  classes : r.classes.Ascending
  named : ∀ e ∈ r.classes, e.2.name = e.1
  known : r.Known
  acyclic : ∀ c, ¬ TransGen r.Inherits c c
  instances : r.instances.Ascending
  heads : ∀ b ∈ r.instances, b.2.Ascending
  stored : ∀ b ∈ r.instances, ∀ e ∈ b.2, r.Stored b.1 e.1 e.2

theorem coherent_empty : empty.Coherent where
  classes := .nil
  named := List.forall_mem_nil _
  known _ _ h := absurd h List.not_mem_nil
  acyclic c h := by
    obtain ⟨m, hm, -⟩ := TransGen.head'_iff.mp h
    exact absurd hm List.not_mem_nil
  instances := .nil
  heads := List.forall_mem_nil _
  stored := List.forall_mem_nil _

theorem Coherent.congr (h : r.Coherent) (hclasses : r'.classes = r.classes) (hinstances : r'.instances = r.instances) :
    r'.Coherent := by
  obtain ⟨classes, instances, _, _, _⟩ := r
  obtain ⟨_, _, _, _, _⟩ := r'
  cases hclasses
  cases hinstances
  exact ⟨h.classes, h.named, h.known, h.acyclic, h.instances, h.heads, fun b hb e he => (h.stored b hb e he).congr fun _ => id⟩

-- The new class has no class below it yet, so that a cycle would have to be among the old ones.
theorem Coherent.registerClass (h : r.Coherent) (hr : registerClass decl r = (.ok (), r')) : r'.Coherent := by
  have hfind := find?_registerClass hr
  have hinherits {c s : String} (hs : r'.Inherits c s) := inherits_registerClass hr hs
  obtain ⟨-, hnew, hsupers, rfl⟩ := registerClass_ok hr
  have hold {c : String} (hc : r.hasClass c = true) : c ≠ decl.name := by
    rintro rfl
    exact Bool.false_ne_true (hnew.symm.trans hc)
  have hkept {c : String} {decl' : ClassDecl} (hdecl' : r.classes.find? c = some decl') :=
    (hfind c).trans ((if_neg (hold (hasClass_iff.mpr ⟨decl', hdecl'⟩))).trans hdecl')
  refine ⟨OrderedMap.ascending_insert h.classes _ _, fun e he => ?_, fun c s hs => ?_, fun c hc => ?_, h.instances, h.heads,
    fun b hb e he => (h.stored b hb e he).congr fun _ => hkept⟩
  · rcases OrderedMap.mem_insert he with rfl | he
    · rfl
    · exact h.named e he
  · obtain ⟨decl', hdecl'⟩ := hasClass_iff.mp ((hinherits hs).elim (fun hs => hsupers s hs.2) (h.known c s))
    exact hasClass_iff.mpr ⟨decl', hkept hdecl'⟩
  · refine no_cycle_of_inner (R := Function.swap r.Inherits) (fun x y hxy ⟨z, hzy⟩ => ?_)
      (fun x hx => h.acyclic x (transGen_swap.mp hx)) c (transGen_swap.mpr hc)
    have hy : r.hasClass y = true := (hinherits hzy).elim (fun hs => hsupers y hs.2) (h.known z y)
    exact (hinherits hxy).resolve_left fun heq => hold hy heq.1

theorem Coherent.registerInstance (h : r.Coherent) (hr : registerInstance i r = (.ok (), r')) : r'.Coherent := by
  have hmem {b : String × OrderedMap String ClassInstance} (hb : b ∈ r'.instances) {e : String × ClassInstance}
      (he : e ∈ b.2) := mem_registerInstance hr hb he
  obtain ⟨-, -, decl, -, rfl⟩ := registerInstance_ok hr
  have hascending : OrderedMap.Ascending ((r.instances.find? i.className).getD []) := by
    cases hb : r.instances.find? i.className with
    | none => exact .nil
    | some heads => exact h.heads _ (OrderedMap.mem_of_find? hb)
  refine ⟨h.classes, h.named, h.known, h.acyclic, OrderedMap.ascending_insert h.instances _ _, fun b hb => ?_,
    fun b hb e he => ?_⟩
  · rcases OrderedMap.mem_insert hb with rfl | hb
    · exact OrderedMap.ascending_insert hascending _ _
    · exact h.heads b hb
  · rcases hmem hb he with ⟨decl', hdecl', hname, rfl⟩ | ⟨b', hb', hname, he⟩
    · exact ⟨hname.symm, rfl, decl', hdecl', rfl⟩
    · exact hname ▸ (h.stored b' hb' e he).congr fun _ => id

theorem Coherent.perform {call : Call} (h : r.Coherent) (hr : perform call r = (.ok (), r')) : r'.Coherent := by
  cases call with
  | registerClass => exact h.registerClass hr
  | registerInstance => exact h.registerInstance hr
  | setModuleDefault =>
      cases hr
      exact h.congr rfl rfl
  | freeze =>
      cases hr
      exact h.congr rfl rfl

theorem Coherent.performAll (h : r.Coherent) (calls : List Call) : (r.performAll calls).2.Coherent :=
  register_invariant steady_perform (fun _ _ _ _ h hr => h.perform hr) h

def FrozenAt (r₀ r : Registry) : Prop :=
  r.frozen = true ∧ r.classes = r₀.classes ∧ r.instances = r₀.instances

theorem FrozenAt.perform {r₀ : Registry} {call : Call} (h : FrozenAt r₀ r) (hr : perform call r = (.ok (), r')) :
    FrozenAt r₀ r' := by
  cases call with
  | registerClass => exact absurd (h.1.symm.trans (registerClass_ok hr).1) Bool.true_eq_false.mp
  | registerInstance => exact absurd (h.1.symm.trans (registerInstance_ok hr).1) Bool.true_eq_false.mp
  | setModuleDefault =>
      cases hr
      exact h
  | freeze =>
      cases hr
      exact ⟨rfl, h.2⟩

theorem frozenAt_performAll (r : Registry) (calls : List Call) : FrozenAt r (r.performAll (.freeze :: calls)).2 := by
  change FrozenAt r (r.freeze.performAll calls).2
  exact register_invariant steady_perform (fun _ _ _ _ h hr => FrozenAt.perform h hr) ⟨rfl, rfl, rfl⟩

theorem coherent_performAll (calls : List Call) :
    (empty.performAll calls).2.Coherent ∧
    (∀ c s, s ∈ (empty.performAll calls).2.superclassClosure c ↔ TransGen (empty.performAll calls).2.Inherits c s) ∧
    (∀ c, c ∉ (empty.performAll calls).2.superclassClosure c) ∧
    (∀ c, (empty.performAll calls).2.search ([], [c]) = (empty.performAll calls).2.superclassClosure c) ∧
    (∀ call, match perform call (empty.performAll calls).2 with
      | (.ok (), r) => empty.performAll (calls ++ [call]) = ((empty.performAll calls).1, r) ∧
          (empty.performAll calls).2.Stores r call
      | (.error d, r) => empty.performAll (calls ++ [call]) = ((empty.performAll calls).1 ++ [d], r) ∧
          r = (empty.performAll calls).2) ∧
    ∀ later, (empty.performAll (calls ++ .freeze :: later)).2.classes = (empty.performAll calls).2.classes ∧
      (empty.performAll (calls ++ .freeze :: later)).2.instances = (empty.performAll calls).2.instances := by
  have hcoherent := coherent_empty.performAll calls
  refine ⟨hcoherent, fun c s => hcoherent.known.mem_superclassClosure_iff, fun c hc => ?_, hcoherent.known.search_eq,
    fun call => ?_, fun later => ?_⟩
  · exact hcoherent.acyclic c (hcoherent.known.mem_superclassClosure_iff.mp hc)
  · have hnext : empty.performAll (calls ++ [call]) = _ := register_concat
    split
    next r hr =>
        rw [hr] at hnext
        exact ⟨hnext, stores_perform hr⟩
    next d r hr =>
        rw [hr] at hnext
        exact ⟨hnext, steady_perform call _ d r hr⟩
  · rw [performAll, register_append]
    exact (frozenAt_performAll _ later).2

example : (empty.performAll [.registerClass ⟨"Eq", [], ["eq"], none⟩, .registerClass ⟨"Ord", ["Eq"], ["lt"], none⟩,
    .registerClass ⟨"Hash", ["Eq"], ["hash"], none⟩, .registerClass ⟨"Key", ["Ord", "Hash"], [], none⟩]).2.superclassClosure
    "Key" = ["Eq", "Hash", "Ord"] := by
  decide +kernel

end Registry

end RowTyping
