import RowTyping.Proofs.Unification.Invariant

namespace RowTyping

inductive Ty.Shaped (positional : Bool := false) : Ty → Prop
  | var (v : TypeVar) : Ty.Shaped positional (.var v)
  | con (name : String) : Ty.Shaped positional (.con name)
  | app {f : Ty} {as : List Ty} : positional = true → Ty.Shaped positional f → (∀ a ∈ as, Ty.Shaped positional a) →
      Ty.Shaped positional (.app f as)
  | list {a : Ty} : Ty.Shaped positional a → Ty.Shaped positional (.list a)
  | tuple {as : List Ty} : (∀ a ∈ as, Ty.Shaped positional a) → Ty.Shaped positional (.tuple as)
  | fn {ps : List Ty} {e : Effects} {r : Ty} : (∀ p ∈ ps, Ty.Shaped positional p) → (∀ row ∈ e, row.kind = .effectRow) →
      (∀ row ∈ e, ∀ f ∈ row.fields, Ty.Shaped positional f.2) → Ty.Shaped positional r → Ty.Shaped positional (.fn ps e r)
  | record {r : Row} : r.kind = .recordRow → (∀ f ∈ r.fields, Ty.Shaped positional f.2) → Ty.Shaped positional (.record r)

variable {positional : Bool}

def Row.Shaped (positional : Bool) (r : Row) : Prop :=
  ∀ f ∈ r.fields, f.2.Shaped positional

theorem hereditary_shaped (positional : Bool) : Hereditary (Ty.Shaped positional) (Row.Shaped positional) where
  app h := by
    cases h with
    | app _ hf has => exact ⟨hf, has⟩
  list h := by
    cases h with
    | list ha => exact ha
  tuple h := by
    cases h with
    | tuple has => exact has
  fn {ps e r} h := by
    cases h with
    | fn hps _ he hr =>
        refine ⟨hps, ?_, hr⟩
        cases e with
        | none => exact List.forall_mem_nil _
        | some row => exact he row rfl
  record h := by
    cases h with
    | record _ hfs => exact hfs
  field h f hf := h f hf
  residual p h f hf := h f (List.mem_of_mem_filter hf)

theorem Row.Shaped.only {r a : Row} (h : r.Shaped positional) (k : Kind) (rest : Option RowVarId) :
    Row.Shaped positional ⟨k, r.only a, rest⟩ :=
  fun f hf => h f (List.mem_of_mem_filter hf)

theorem shaped_subst_both {σ : TypeVarId → Option Ty} {ρ : RowVarId → Option Row} (hσ : ∀ id x, σ id = some x → x.Shaped positional)
    (hρ : ∀ id x, ρ id = some x → x.Shaped positional) : (∀ t : Ty, t.Shaped positional → (t.subst σ ρ).Shaped positional) ∧
      ∀ r : Row, r.Shaped positional → (Ty.substRow σ ρ r).Shaped positional := by
  apply Ty.induct_rows
  case var =>
    intro v _
    cases hv : σ v.id with
    | none => simpa [hv] using (.var v : Ty.Shaped positional (.var v))
    | some x => simpa [hv] using hσ v.id x hv
  case con => exact fun name _ => .con name
  case app =>
    intro f as hf has h
    cases h with
    | app hp hfS hasS =>
        rw [Ty.subst_app]
        exact .app hp (hf hfS) (List.forall_mem_map.mpr fun a ha => has a ha (hasS a ha))
  case list => exact fun a ha h => .list (ha ((hereditary_shaped positional).list h))
  case tuple =>
    intro as has h
    rw [Ty.subst_tuple]
    exact .tuple (List.forall_mem_map.mpr fun a ha => has a ha ((hereditary_shaped positional).tuple h a ha))
  case fn =>
    intro ps e r hps he hr h
    cases h with
    | fn hpsS hkind heS hrS =>
        rw [Ty.subst_fn]
        refine .fn (List.forall_mem_map.mpr fun p hp => hps p hp (hpsS p hp)) (fun row hrow => ?_) (fun row hrow => ?_) (hr hrS)
        · obtain ⟨row₀, hrow₀, rfl⟩ := Option.map_eq_some_iff.mp hrow
          exact (Ty.substRow_kind row₀).trans (hkind row₀ hrow₀)
        · obtain ⟨row₀, hrow₀, rfl⟩ := Option.map_eq_some_iff.mp hrow
          exact he row₀ hrow₀ (heS row₀ hrow₀)
  case record =>
    intro r hr h
    cases h with
    | record hkind hfs => exact .record ((Ty.substRow_kind r).trans hkind) (hr hfs)
  case row =>
    intro k fs rest hfs h
    have hfields : ∀ f ∈ OrderedMap.mapValues (Ty.subst σ ρ) fs, f.2.Shaped positional :=
      List.forall_mem_map.mpr fun f hf => hfs f hf (h f hf)
    cases htail : rest.bind ρ with
    | none =>
        rw [Ty.substRow_none_tail htail]
        exact hfields
    | some x =>
        obtain ⟨id, -, hx⟩ := Option.bind_eq_some_iff.mp htail
        rw [Ty.substRow_some_tail htail]
        intro f hf
        rcases OrderedMap.mem_merge hf with hf | hf
        · exact hfields f hf
        · exact hρ id x hx f hf

theorem substitutive_shaped : Substitutive (Ty.Shaped positional) (Row.Shaped positional) :=
  ⟨fun hσ hρ _ ht => (shaped_subst_both hσ hρ).1 _ ht, fun hσ hρ _ hr => (shaped_subst_both hσ hρ).2 _ hr⟩

theorem invariant_shaped : Hereditary.Invariant (Ty.Shaped positional) (Row.Shaped positional) fun _ _ => True :=
  ⟨hereditary_shaped positional, substitutive_shaped, fun h k rest => h.only k rest, fun _ _ _ => trivial⟩

end RowTyping
