import RowTyping.Infer.Env
import RowTyping.Infer.Generalize
import RowTyping.Proofs.Inference.Rows

namespace RowTyping

section Tails

variable {σ : TypeVarId → Option Ty} {ρ ρ' : RowVarId → Option Row}

theorem Ty.tail_substRow (h : ∀ id, (ρ id).map Row.tail = (ρ' id).map Row.tail) {k k' : Kind} {fs : OrderedMap Label Ty}
    {rest : Option RowVarId} (hfs : fs.mapValues (Ty.subst σ ρ) = fs.mapValues (Ty.subst σ ρ')) :
    (Ty.substRow σ ρ ⟨k, fs, rest⟩).tail = (Ty.substRow σ ρ' ⟨k', fs, rest⟩).tail := by
  have hrest : (rest.bind ρ).map Row.tail = (rest.bind ρ').map Row.tail := by
    cases rest with
    | none => rfl
    | some id => exact h id
  cases hx : rest.bind ρ with
  | none =>
      rw [hx] at hrest
      rw [substRow_none_tail hx, substRow_none_tail (Option.map_eq_none_iff.mp hrest.symm), hfs]
      rfl
  | some x =>
      rw [hx] at hrest
      obtain ⟨x', hx', htail⟩ := Option.map_eq_some_iff.mp hrest.symm
      obtain ⟨hfields, hrest⟩ := Tail.mk.inj htail
      rw [substRow_some_tail hx, substRow_some_tail hx', hfs, Row.tail, Row.tail, hfields, hrest]

-- What replaces a tail gives its fields and its tail; its kind is of no account.
theorem Ty.subst_congr_tails (h : ∀ id, (ρ id).map Row.tail = (ρ' id).map Row.tail) :
    (∀ t : Ty, t.subst σ ρ = t.subst σ ρ') ∧ ∀ r : Row, Ty.substRow σ ρ r = Ty.substRow σ ρ' r := by
  apply Ty.induct_rows
  case var => exact fun _ => rfl
  case con => exact fun _ => rfl
  case app =>
    intro t as ht has
    rw [subst_app, subst_app, ht, List.map_congr_left has]
  case list =>
    intro a ha
    rw [subst_list, subst_list, ha]
  case tuple =>
    intro as has
    rw [subst_tuple, subst_tuple, List.map_congr_left has]
  case fn =>
    intro ps e r hps he hr
    rw [subst_fn, subst_fn, List.map_congr_left hps, hr]
    cases e with
    | none => rfl
    | some row => rw [Option.map_some, Option.map_some, he row rfl]
  case record =>
    intro r hr
    rw [subst_record, subst_record, hr]
  case row =>
    intro k fs rest hfs
    have htail : (Ty.substRow σ ρ ⟨k, fs, rest⟩).tail = (Ty.substRow σ ρ' ⟨k, fs, rest⟩).tail :=
      tail_substRow h (OrderedMap.mapValues_congr hfs)
    obtain ⟨hfields, hrest⟩ := Tail.mk.inj htail
    have hkind : (Ty.substRow σ ρ ⟨k, fs, rest⟩).kind = (Ty.substRow σ ρ' ⟨k, fs, rest⟩).kind := by
      rw [substRow_kind, substRow_kind]
    generalize Ty.substRow σ ρ ⟨k, fs, rest⟩ = x at *
    generalize Ty.substRow σ ρ' ⟨k, fs, rest⟩ = x' at *
    obtain ⟨k₁, fs₁, rest₁⟩ := x
    obtain ⟨k₂, fs₂, rest₂⟩ := x'
    simp_all

end Tails

namespace Substitution

variable {φ : Layout} {M : Assignment → Prop}

def rekind (κ : RowVarId → Kind) (s : Substitution) : Substitution :=
  { s with rows := s.rows.map fun e => (e.1, { e.2 with kind := κ e.1 }) }

theorem lookupRow_rekind (κ : RowVarId → Kind) (s : Substitution) (id : RowVarId) :
    (s.rekind κ).lookupRow id = (s.lookupRow id).map fun r => { r with kind := κ id } := by
  simp only [lookupRow, rekind]
  induction s.rows with
  | nil => rfl
  | cons e rows ih =>
      rw [List.map_cons, OrderedMap.find?_cons, OrderedMap.find?_cons, ih]
      split
      next h => rw [h, Option.map_some]
      next => rfl

theorem chase_rekind (κ : RowVarId → Kind) (s : Substitution) (n : Nat) :
    (∀ t : Ty, (s.rekind κ).chase n t = s.chase n t) ∧
      ∀ r r' : Row, r.tail = r'.tail → ((s.rekind κ).chaseRow n r).tail = (s.chaseRow n r').tail := by
  induction n with
  | zero => exact ⟨fun _ => rfl, fun _ _ h => h⟩
  | succ n ih =>
      have hσ : (s.rekind κ).assigned ((s.rekind κ).chase n) = s.assigned (s.chase n) := by
        funext id
        exact congrArg (Option.map · _) (funext ih.1)
      have hρ : ∀ id, ((s.rekind κ).assignedRow ((s.rekind κ).chaseRow n) id).map Row.tail =
          (s.assignedRow (s.chaseRow n) id).map Row.tail := by
        intro id
        rw [assignedRow, assignedRow, lookupRow_rekind]
        cases s.lookupRow id with
        | none => rfl
        | some r => exact congrArg some (ih.2 _ r rfl)
      refine ⟨fun t => ?_, fun r r' h => ?_⟩
      · rw [chase_succ, chase_succ, hσ, (Ty.subst_congr_tails hρ).1]
      · obtain ⟨k, fs, rest⟩ := r
        obtain ⟨k', fs', rest'⟩ := r'
        obtain ⟨rfl, rfl⟩ := Tail.mk.inj h
        rw [chaseRow_succ, chaseRow_succ, hσ]
        exact Ty.tail_substRow hρ (OrderedMap.mapValues_congr fun f _ => (Ty.subst_congr_tails hρ).1 f.2)

theorem apply_rekind (κ : RowVarId → Kind) (s : Substitution) (t : Ty) : (s.rekind κ).apply t = s.apply t := by
  have hdepth : (s.rekind κ).depth = s.depth := by simp [depth, rekind]
  rw [apply, apply, hdepth, (chase_rekind κ s _).1]

end Substitution

namespace State

structure OwnsScheme (s : State) (scheme : Scheme) : Prop where
  ty : s.Owns scheme.ty
  predicates : ∀ p ∈ scheme.predicates, p.ty.Within s.supply
  rowVars : ∀ r ∈ scheme.rowVars, s.supply.Covers (.row r)

def OwnsEnv (s : State) (env : Env) : Prop :=
  ∀ scheme ∈ env.schemes, s.OwnsScheme scheme

variable {s s' : State}

theorem Follows.ownsScheme (h : s.Follows s') {scheme : Scheme} (hscheme : s.OwnsScheme scheme) : s'.OwnsScheme scheme :=
  ⟨h.owns hscheme.ty, fun p hp => (hscheme.predicates p hp).mono h.covers, fun r hr => h.covers _ (hscheme.rowVars r hr)⟩

theorem Follows.ownsEnv (h : s.Follows s') {env : Env} (henv : s.OwnsEnv env) : s'.OwnsEnv env :=
  fun scheme hscheme => h.ownsScheme (henv scheme hscheme)

theorem ownsScheme_mono {t : Ty} (ht : s.Owns t) : s.OwnsScheme (.mono t) :=
  ⟨ht, List.forall_mem_nil _, List.forall_mem_nil _⟩

theorem mem_schemes_bind {env : Env} {name : String} {bound scheme : Scheme} (h : scheme ∈ (env.bind name bound).schemes) :
    scheme = bound ∨ scheme ∈ env.schemes := by
  have hinsert {m : OrderedMap String Scheme} (h : scheme ∈ (m.insert name bound).values) : scheme = bound ∨ scheme ∈ m.values := by
    obtain ⟨e, he, rfl⟩ := List.mem_map.mp h
    exact (OrderedMap.mem_insert he).imp (congrArg Prod.snd) fun he => List.mem_map_of_mem he
  obtain ⟨globals, locals⟩ := env
  cases locals with
  | nil =>
      simp only [Env.bind, Env.schemes, List.flatMap_nil, List.append_nil] at h ⊢
      exact hinsert h
  | cons inner outer =>
      simp only [Env.bind, Env.schemes, List.flatMap_cons, List.mem_append] at h ⊢
      rcases h with h | h | h
      · exact .inr (.inl h)
      · exact (hinsert h).imp_right fun h => .inr (.inl h)
      · exact .inr (.inr (.inr h))

theorem mem_schemes_bindAll {env : Env} {bindings : List (String × Scheme)} {scheme : Scheme} (h : scheme ∈ (env.bindAll bindings).schemes) :
    (∃ b ∈ bindings, scheme = b.2) ∨ scheme ∈ env.schemes := by
  induction bindings generalizing env with
  | nil => exact .inr h
  | cons b bindings ih =>
      rcases ih h with ⟨b', hb', hscheme⟩ | h
      · exact .inl ⟨b', List.mem_cons_of_mem b hb', hscheme⟩
      · exact (mem_schemes_bind h).imp_left fun hscheme => ⟨b, List.mem_cons_self, hscheme⟩

theorem OwnsEnv.bindAll {env : Env} (henv : s.OwnsEnv env) {bindings : List (String × Scheme)}
    (h : ∀ b ∈ bindings, s.OwnsScheme b.2) : s.OwnsEnv (env.bindAll bindings) := fun scheme hscheme => by
  rcases mem_schemes_bindAll hscheme with ⟨b, hb, rfl⟩ | hscheme
  · exact h b hb
  · exact henv scheme hscheme

theorem OwnsEnv.nest {env : Env} (henv : s.OwnsEnv env) {bindings : List (String × Scheme)}
    (h : ∀ b ∈ bindings, s.OwnsScheme b.2) : s.OwnsEnv (env.nest bindings) := by
  have hpush : s.OwnsEnv env.pushScope := fun scheme hscheme =>
    henv scheme (by simpa [Env.schemes, Env.pushScope, OrderedMap.values] using hscheme)
  exact hpush.bindAll h

theorem mem_schemes_of_lookup {env : Env} {name : String} {scheme : Scheme} (h : env.lookup name = some scheme) :
    scheme ∈ env.schemes := by
  rcases Option.or_eq_some_iff.mp h with h | ⟨-, h⟩
  · obtain ⟨inner, hinner, h⟩ := List.exists_of_findSome?_eq_some h
    exact List.mem_append_right _ (List.mem_flatMap.mpr ⟨inner, hinner, List.mem_map_of_mem (OrderedMap.mem_of_find? h)⟩)
  · exact List.mem_append_left _ (List.mem_map_of_mem (OrderedMap.mem_of_find? h))

end State

namespace InferM

variable {s : State}

theorem keeps_freshTypeRenaming (hs : s.Ready) (vs : List TypeVar) :
    Keeps (freshTypeRenaming vs) s fun types s' => ∀ e ∈ types, s'.Owns e.2 := by
  induction vs generalizing s with
  | nil => exact keeps_pure hs (List.forall_mem_nil _)
  | cons v vs ih =>
      refine (keeps_freshTypeVar hs).bind fun w s₁ h₁ hs₁ hw => ?_
      refine (ih hs₁).bind fun types s₂ h₂ hs₂ htypes => keeps_pure hs₂ ?_
      exact List.forall_mem_cons.mpr ⟨h₂.owns (State.owns_var hw), htypes⟩

def Renames (s : State) (e : RowVarId × Row) : Prop :=
  ∃ w, e.2 = .openRecord [] w ∧ s.supply.Covers (.row w) ∧ s.supply.Covers (.row e.1) ∧
    ∀ φ ∈ s.layout, φ.fields w = φ.fields e.1

theorem keeps_freshRowRenaming (hs : s.Ready) {rs : List RowVarId} (hrs : ∀ r ∈ rs, s.supply.Covers (.row r)) :
    Keeps (freshRowRenaming rs) s fun rows s' => ∀ e ∈ rows, Renames s' e := by
  induction rs generalizing s with
  | nil => exact keeps_pure hs (List.forall_mem_nil _)
  | cons r rs ih =>
      rw [List.forall_mem_cons] at hrs
      refine (keeps_freshRow hs (s.layout.bind fun φ => φ.fields r)).bind fun w s₁ h₁ hs₁ hw => ?_
      refine (ih hs₁ fun r' hr' => h₁.covers _ (hrs.2 r' hr')).bind fun rows s₂ h₂ hs₂ hrows => keeps_pure hs₂ ?_
      refine List.forall_mem_cons.mpr ⟨⟨w, rfl, h₂.covers _ hw.1, h₂.covers _ (h₁.covers _ hrs.1), fun φ₂ hφ₂ => ?_⟩, hrows⟩
      obtain ⟨φ₁, hφ₁, hagree₂⟩ := h₂.agrees hφ₂
      obtain ⟨φ, hφ, hagree₁⟩ := h₁.agrees hφ₁
      rw [hagree₂.fields w hw.1, hagree₂.fields r (h₁.covers _ hrs.1), hagree₁.fields r hrs.1, hw.2 φ₁ hφ₁, hφ]
      rfl

theorem keeps_addPredicates (hs : s.Ready) (node : NodeId) {mapping : Substitution} (hmapping : mapping.Within s.supply)
    {ps : List Predicate} (hps : ∀ p ∈ ps, p.ty.Within s.supply) : Keeps (addPredicates node mapping ps) s fun _ _ => True := by
  refine keeps_forM hs fun p hp s' h hs' => (keeps_addClass hs' p.className ?_ node .instantiation).mono fun _ _ _ _ _ => trivial
  exact (hmapping.apply (hps p hp)).mono h.covers

structure Renaming (s : State) (mapping : Substitution) : Prop where
  types : ∀ id t, mapping.lookupType id = some t → s.Owns t
  rows : ∀ id r, mapping.lookupRow id = some r → Renames s (id, r)

theorem renaming_ofList {types : List (TypeVarId × Ty)} {rows : List (RowVarId × Row)} (htypes : ∀ e ∈ types, s.Owns e.2)
    (hrows : ∀ e ∈ rows, Renames s e) : Renaming s ⟨OrderedMap.ofList types, OrderedMap.ofList rows⟩ where
  types _ _ ht := htypes _ (OrderedMap.mem_of_find?_ofList ht)
  rows _ _ hr := hrows _ (OrderedMap.mem_of_find?_ofList hr)

namespace Renaming

variable {mapping : Substitution}

theorem within (h : Renaming s mapping) : mapping.Within s.supply := by
  refine ⟨fun id t ht => (h.types id t ht).within, fun id r hr => ?_⟩
  obtain ⟨w, rfl, hw, -⟩ := h.rows id r hr
  refine ⟨Row.ordered_iff.mpr ⟨.nil, List.forall_mem_nil _⟩, fun v hv => ?_⟩
  rcases Row.mem_vars.mp hv with ⟨f, hf, -⟩ | ⟨w', hw', rfl⟩
  · cases hf
  · exact Option.some.inj hw' ▸ hw

def kindOf (φ : Layout) (r : RowVarId) : Kind :=
  if (φ.fields r).isSome then .recordRow else .effectRow

theorem rekind_ordered (h : Renaming s mapping) (κ : RowVarId → Kind) : (mapping.rekind κ).Ordered := by
  refine ⟨h.within.ordered.1, fun id r hr => ?_⟩
  rw [Substitution.lookupRow_rekind] at hr
  obtain ⟨r', hr', rfl⟩ := Option.map_eq_some_iff.mp hr
  obtain ⟨w, rfl, -⟩ := h.rows id r' hr'
  exact Row.ordered_iff.mpr ⟨.nil, List.forall_mem_nil _⟩

theorem rekind_conforms (h : Renaming s mapping) (hs : s.Ready) {φ : Layout} (hφ : φ ∈ s.layout) :
    (mapping.rekind (kindOf φ)).Conforms φ Nowhere := by
  refine ⟨fun id t ht => (h.types id t ht).conforms φ hφ, fun id r hr => ?_⟩
  rw [Substitution.lookupRow_rekind] at hr
  obtain ⟨r', hr', rfl⟩ := Option.map_eq_some_iff.mp hr
  obtain ⟨w, rfl, -, -, hw⟩ := h.rows id r' hr'
  have hw := hw φ hφ
  refine ⟨?_, List.forall_mem_nil _⟩
  cases hfields : φ.fields id with
  | none =>
      have hkind : kindOf φ id = .effectRow := by rw [kindOf, hfields]; rfl
      refine .untracked ?_ (List.forall_mem_nil _) fun v hv => Option.some.inj hv ▸ hw.trans hfields
      change φ.tracks (kindOf φ id) = false
      rw [hkind, (hs.records φ hφ).tracks_effect]
  | some fs =>
      have hkind : kindOf φ id = .recordRow := by rw [kindOf, hfields]; rfl
      refine .tracked ?_ (List.forall_mem_nil _) fun v hv => ⟨fs, Option.some.inj hv ▸ hw.trans hfields, ?_⟩
      · change φ.tracks (kindOf φ id) = true
        rw [hkind, (hs.records φ hφ).tracks_record]
      · rw [Fields.join_of_empty rfl]
        exact .refl fs

theorem owns_apply (h : Renaming s mapping) (hs : s.Ready) {t : Ty} (ht : s.Owns t) : s.Owns (mapping.apply t) where
  within := h.within.apply ht.within
  conforms φ hφ := by
    rw [← Substitution.apply_rekind (kindOf φ)]
    exact (h.rekind_conforms hs hφ).apply (fun _ => False.elim) (h.rekind_ordered _) ht.within.1 (ht.conforms φ hφ)
  shaped φ hφ := by
    refine Substitution.All.apply ⟨fun id t ht => (h.types id t ht).shaped φ hφ, fun id r hr => ?_⟩ substitutive_shaped (ht.shaped φ hφ)
    obtain ⟨w, rfl, -⟩ := h.rows id r hr
    exact List.forall_mem_nil _

end Renaming

theorem keeps_instantiate (hs : s.Ready) {scheme : Scheme} (hscheme : s.OwnsScheme scheme) (node : NodeId) :
    Keeps (instantiate scheme node) s fun t s' => s'.Owns t := by
  refine keeps_ite (fun _ => keeps_pure hs hscheme.ty) fun _ => ?_
  refine (keeps_freshTypeRenaming hs _).bind fun types s₁ h₁ hs₁ htypes => ?_
  refine (keeps_freshRowRenaming hs₁ fun r hr => h₁.covers _ (hscheme.rowVars r hr)).bind fun rows s₂ h₂ hs₂ hrows => ?_
  have h := h₁.trans h₂
  have hrenaming : Renaming s₂ ⟨OrderedMap.ofList types, OrderedMap.ofList rows⟩ :=
    renaming_ofList (fun e he => h₂.owns (htypes e he)) hrows
  have howns := hrenaming.owns_apply hs₂ (h.owns hscheme.ty)
  have hpredicates : ∀ p ∈ scheme.predicates, p.ty.Within s₂.supply := fun p hp => (hscheme.predicates p hp).mono h.covers
  refine (keeps_addPredicates hs₂ node hrenaming.within hpredicates).bind fun _ s₃ h₃ hs₃ _ => ?_
  exact (keeps_note hs₃ _ _ _).bind fun _ s₄ h₄ hs₄ _ => keeps_pure hs₄ (h₄.owns (h₃.owns howns))

end InferM

end RowTyping
