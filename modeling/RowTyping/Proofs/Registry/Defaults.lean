import RowTyping.Proofs.Decisions

namespace RowTyping

namespace Registry

open Relation

variable {r : Registry} {c d : String} {t : Ty}

section Implied

variable {classes : List String}

def Leads (r : Registry) (classes : List String) (c : String) : Prop :=
  c ∈ classes ∧ ∀ d ∈ classes, ¬ TransGen r.Inherits d c

theorem Coherent.wellFounded (h : r.Coherent) (classes : List String) :
    WellFounded fun c d : { c // c ∈ classes } => TransGen r.Inherits c.1 d.1 := by
  have : IsTrans { c // c ∈ classes } fun c d => TransGen r.Inherits c.1 d.1 := ⟨fun _ _ _ => TransGen.trans⟩
  have : Std.Irrefl fun c d : { c // c ∈ classes } => TransGen r.Inherits c.1 d.1 := ⟨fun c => h.acyclic c.1⟩
  exact Finite.wellFounded_of_trans_of_irrefl _

theorem Coherent.leads (h : r.Coherent) (hd : d ∈ classes) :
    ∃ c, r.Leads classes c ∧ (c = d ∨ TransGen r.Inherits c d) := by
  obtain ⟨c, hc, hleads⟩ := (h.wellFounded classes).has_min { c | c.1 = d ∨ TransGen r.Inherits c.1 d } ⟨⟨d, hd⟩, .inl rfl⟩
  refine ⟨c.1, ⟨c.2, fun e he hec => hleads ⟨e, he⟩ (.inr ?_) hec⟩, hc⟩
  rcases hc with rfl | hcd
  · exact hec
  · exact hec.trans hcd

theorem Coherent.mem_leading (h : r.Coherent) :
    c ∈ classes.filter (fun c => !(classes.flatMap r.superclassClosure).contains c) ↔ r.Leads classes c := by
  simp [Leads, h.known.mem_superclassClosure_iff]

end Implied

section Choice

variable {classes primary : List String}

theorem primaryClasses_ok (h : r.primaryClasses classes = .ok primary) :
    primary = classes.filter fun c => !neutralClasses.contains c := by
  induction classes generalizing primary with
  | nil =>
      cases h
      rfl
  | cons c classes ih =>
      rw [primaryClasses] at h
      split at h
      next hneutral => rw [ih h, List.filter_cons_of_neg (by simpa using hneutral)]
      next hneutral =>
        split at h
        · cases h
        · split at h
          · cases h
          · cases hrest : r.primaryClasses classes with
            | error => rw [hrest] at h; cases h
            | ok rest =>
                rw [hrest] at h
                cases h
                rw [ih hrest, List.filter_cons_of_pos (by simpa using hneutral)]

def Numeric (classes : List String) (c : String) : Prop :=
  c ∈ classes ∧ c ∉ neutralClasses

instance (classes : List String) (c : String) : Decidable (Numeric classes c) :=
  inferInstanceAs (Decidable (_ ∧ _))

def Dominates (r : Registry) (classes : List String) (c : String) : Prop :=
  Numeric classes c ∧ ∀ d, Numeric classes d → d ≠ c → d ∈ r.superclassClosure c

theorem Coherent.chooseDefault_ok (h : r.Coherent) (ht : r.chooseDefault classes = .ok t) :
    (∀ c, ¬ Numeric classes c) ∨ ∃ c, r.Dominates classes c ∧ r.defaultType c = some t := by
  rw [chooseDefault] at ht
  cases hprimary : r.primaryClasses classes with
  | error => rw [hprimary] at ht; cases ht
  | ok primary =>
      have hnumeric {c : String} : Numeric classes c ↔ c ∈ primary := by simp [primaryClasses_ok hprimary, Numeric]
      have hleading {c : String} : c ∈ primary.filter (fun c => !(primary.flatMap r.superclassClosure).contains c) ↔ r.Leads primary c :=
        h.mem_leading
      simp only [hprimary, bind, Except.bind] at ht
      split at ht
      next hnone =>
        refine .inl fun d hd => ?_
        obtain ⟨c, hc, -⟩ := h.leads (hnumeric.mp hd)
        exact List.not_mem_nil (hnone ▸ hleading.mpr hc)
      next c hone =>
        have hc : r.Leads primary c := hleading.mp (hone ▸ List.mem_singleton_self c)
        refine .inr ⟨c, ⟨hnumeric.mpr hc.1, fun d hd hdc => ?_⟩, ?_⟩
        · obtain ⟨c', hc', hd⟩ := h.leads (hnumeric.mp hd)
          obtain rfl : c' = c := List.mem_singleton.mp (hone ▸ hleading.mpr hc')
          exact h.known.mem_superclassClosure_iff.mpr (hd.resolve_left (Ne.symm hdc))
        · split at ht
          next hdefault => rw [hdefault, Except.ok.inj ht]
          next => cases ht
      next => cases ht

end Choice

section Lookup

variable {head : String} {i : ClassInstance}

theorem Coherent.stored_of_direct? (h : r.Coherent) (hi : r.direct? c head = some i) : r.Stored c head i := by
  obtain ⟨heads, hheads, hi⟩ := Option.bind_eq_some_iff.mp hi
  exact h.stored _ (OrderedMap.mem_of_find? hheads) _ (OrderedMap.mem_of_find? hi)

theorem Coherent.isSome_lookupHead_iff (h : r.Coherent) : (r.lookupHead c head).isSome = true ↔
    ∃ i ∈ r.allInstances, i.head = head ∧ (i.className = c ∨ TransGen r.Inherits i.className c) := by
  constructor
  · intro hfound
    obtain ⟨i, hi⟩ := Option.isSome_iff_exists.mp hfound
    rcases lookupHead_cases hi with hdirect | ⟨-, source, hsource, hhead, hclosure, -⟩
    · have hstored := h.stored_of_direct? hdirect
      exact ⟨i, mem_allInstances_of_direct? hdirect, hstored.head, .inl hstored.className⟩
    · exact ⟨source, hsource, hhead, .inr (h.known.mem_superclassClosure_iff.mp hclosure)⟩
  · rintro ⟨i, hi, rfl, rfl | hinherits⟩
    · rw [lookupHead, h.direct?_of_mem hi]
      rfl
    · obtain ⟨decl, hdecl⟩ := hasClass_iff.mp (h.known.hasClass_of_transGen hinherits)
      have hsource : (r.allInstances.find? fun j => j.head == i.head && (r.superclassClosure j.className).contains c).isSome = true :=
        List.find?_isSome.mpr ⟨i, hi, by simpa using h.known.mem_superclassClosure_iff.mpr hinherits⟩
      obtain ⟨source, hsource⟩ := Option.isSome_iff_exists.mp hsource
      rw [lookupHead]
      split
      · rfl
      · rw [hdecl]
        exact congr_arg (fun source => (source.bind fun source => some (deriveFrom decl source)).isSome) hsource

theorem Coherent.lookup_of_inherits (h : r.Coherent) (hdc : TransGen r.Inherits d c) (hd : (r.lookup d t).isSome = true) :
    (r.lookup c t).isSome = true := by
  rw [lookup] at hd ⊢
  cases hhead : t.head? with
  | none =>
      rw [hhead] at hd
      cases hd
  | some head =>
      rw [hhead] at hd
      obtain ⟨i, hi, hsame, hclass⟩ := h.isSome_lookupHead_iff.mp hd
      refine h.isSome_lookupHead_iff.mpr ⟨i, hi, hsame, .inr ?_⟩
      rcases hclass with rfl | hclass
      · exact hdc
      · exact hclass.trans hdc

end Lookup

def DefaultsHaveInstances (r : Registry) : Prop :=
  ∀ c t, r.defaultType c = some t → (r.lookup c t).isSome = true

theorem defaultsHaveInstances_of_all (h : ∀ e ∈ r.classes, (e.2.defaultType.all fun t => (r.lookup e.1 t).isSome) = true) :
    r.DefaultsHaveInstances := by
  intro c t ht
  obtain ⟨decl, hdecl, ht⟩ := Option.bind_eq_some_iff.mp ht
  have hdefault := h _ (OrderedMap.mem_of_find? hdecl)
  rwa [ht] at hdefault

open Defaulting in
theorem default_satisfies_classes (calls : List Call) (hdefaults : (empty.performAll calls).2.DefaultsHaveInstances)
    (monotype : Ty) (ks : List ClassConstraint) (envVars : List TypeVarId) (mode : DefaultingMode) (v : TypeVarId) :
    let r := (empty.performAll calls).2
    let out := defaultConstraints monotype ks envVars r mode
    (∀ t, out.subst.lookupType v = some t → ∀ k ∈ ks, r.Reduces k.className k.ty v → k.className ∉ neutralClasses →
      (r.lookup k.className t).isSome = true) ∧
    (Decided monotype ks envVars r mode v → (∃ c, Numeric (classesOn r ks v) c) → (∀ c, ¬ r.Dominates (classesOn r ks v) c) →
      v ∈ out.rejected) := by
  intro r out
  have h : r.Coherent := coherent_empty.performAll calls
  refine ⟨fun t ht k hk hreduces hneutral => ?_, fun hdecided ⟨c, hc⟩ hdominates => ?_⟩
  · have hnumeric : Numeric (classesOn r ks v) k.className := ⟨mem_classesOn.mpr ⟨k, hk, hreduces, rfl⟩, hneutral⟩
    obtain hnone | ⟨c, hc, hdefault⟩ := h.chooseDefault_ok (lookupType_iff.mp ht).2
    · exact absurd hnumeric (hnone _)
    · have hlookup := hdefaults c t hdefault
      by_cases heq : k.className = c
      · exact heq ▸ hlookup
      · exact h.lookup_of_inherits (h.known.mem_superclassClosure_iff.mp (hc.2 _ hnumeric heq)) hlookup
  · refine mem_rejected_iff.mpr ⟨hdecided, ?_⟩
    cases hchoice : r.chooseDefault (classesOn r ks v) with
    | ok t =>
        obtain hnone | ⟨d, hd, -⟩ := h.chooseDefault_ok hchoice
        · exact absurd hc (hnone c)
        · exact absurd hd (hdominates d)
    | error reason => exact ⟨reason, rfl⟩

open Defaulting in
theorem default_satisfies_classes_numbers :
    let calls : List Call := [.registerClass ⟨"Num", [], ["add"], some .int⟩,
      .registerClass ⟨"Fractional", ["Num"], ["div"], some .float⟩, .registerClass ⟨"Integral", ["Num"], ["mod"], some .int⟩,
      .registerInstance (.builtin "Fractional" "Float" ["div"]), .registerInstance (.builtin "Integral" "Int" ["mod"])]
    let r := (empty.performAll calls).2
    let on (c : String) (v : TypeVarId) : ClassConstraint := ⟨c, .ofVar v, [], 0, .operator⟩
    let ks := [on "Num" 0, on "Fractional" 0, on "Fractional" 1, on "Integral" 1]
    let out := defaultConstraints .unit ks [] r .boundary
    r.DefaultsHaveInstances ∧ out.subst.lookupType 0 = some .float ∧ (r.lookup "Num" .float).isSome = true ∧ 1 ∈ out.rejected := by
  intro calls r on ks out
  have hdefaults : r.DefaultsHaveInstances := defaultsHaveInstances_of_all (by decide +kernel)
  have hfloat : out.subst.lookupType 0 = some .float := by decide +kernel
  have hnum : r.Reduces "Num" (.ofVar 0) 0 := ⟨_, .here _⟩
  have hfractional : r.Reduces "Fractional" (.ofVar 1) 1 := ⟨_, .here _⟩
  have hclasses : classesOn r ks 1 = ["Fractional", "Integral"] := by decide +kernel
  have hdecided : Decided .unit ks [] r .boundary 1 :=
    ⟨⟨on "Fractional" 1, by simp [ks], hfractional⟩, List.not_mem_nil, fun _ => List.not_mem_nil⟩
  have hnone (c : String) : ¬ r.Dominates (classesOn r ks 1) c := by
    rw [hclasses]
    rintro ⟨⟨hc, -⟩, hdominates⟩
    rcases List.mem_cons.mp hc with rfl | hc
    · exact absurd (hdominates "Integral" (by decide) (by decide)) (by decide +kernel)
    · cases List.mem_singleton.mp hc
      exact absurd (hdominates "Fractional" (by decide) (by decide)) (by decide +kernel)
  obtain ⟨hsatisfied, hrejected⟩ := default_satisfies_classes calls hdefaults .unit ks [] .boundary 0
  have hconflict := (default_satisfies_classes calls hdefaults .unit ks [] .boundary 1).2
  exact ⟨hdefaults, hfloat, hsatisfied .float hfloat (on "Num" 0) List.mem_cons_self hnum (by decide),
    hconflict hdecided ⟨"Fractional", by rw [hclasses]; decide⟩ hnone⟩

end Registry

end RowTyping
