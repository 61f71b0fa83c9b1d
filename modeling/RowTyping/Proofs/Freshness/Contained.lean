import Mathlib.Data.List.Basic
import RowTyping.Proofs.Variables
import RowTyping.Walk

namespace RowTyping

/-- The states that a run is to keep to, and the variables that have been drawn in each. -/
structure Guard (σ : Type) where
  good : σ → Prop
  drawn : σ → Var → Prop

namespace Guard

variable {σ : Type}

structure Admits (G : Guard σ) (K : Var → Prop) (s : σ) : Prop where
  good : G.good s
  knows : ∀ v, K v → G.drawn s v

structure Leads (G : Guard σ) (s s' : σ) : Prop where
  good : G.good s'
  keeps : ∀ v, G.drawn s v → G.drawn s' v

variable {G : Guard σ} {s s₁ s' : σ}

theorem Leads.refl (h : G.good s) : G.Leads s s :=
  ⟨h, fun _ hv => hv⟩

theorem Leads.trans (h : G.Leads s s₁) (h' : G.Leads s₁ s') : G.Leads s s' :=
  ⟨h'.good, fun v hv => h'.keeps v (h.keeps v hv)⟩

end Guard

namespace Walk

variable {σ τ α β : Type}

/-- Where a run starts from a good state, with the variables `K` among those that have been drawn, every state that it passes through
is good, and the variables `V` of its result are among those that have been drawn in the end. -/
structure Contained (G : Guard σ) (K : Var → Prop) (m : Walk σ α) (V : α → Var → Prop) : Prop where
  passed : ∀ s, G.Admits K s → ∀ s' ∈ m.passed s, G.Leads s s'
  ends : ∀ s, G.Admits K s → G.Leads s (m.run s).2
  answers : ∀ s, G.Admits K s → ∀ v, V (m.run s).1 v → G.drawn (m.run s).2 v

abbrev Silent (α : Type) : α → Var → Prop :=
  fun _ _ => False

variable {G : Guard σ} {K K' : Var → Prop} {V : α → Var → Prop} {W : β → Var → Prop}

theorem contained_pure {a : α} (h : ∀ v, V a v → K v) : Contained G K (pure a) V where
  passed _ _ _ hs' := nomatch hs'
  ends _ hs := .refl hs.good
  answers _ hs v hv := hs.knows v (h v hv)

theorem contained_idle : Contained G K (pure ()) (Silent Unit) :=
  contained_pure fun _ => False.elim

theorem contained_modifyGet {f : σ → α × σ} (h : ∀ s, G.Admits K s → G.Leads s (f s).2)
    (hV : ∀ s, G.Admits K s → ∀ v, V (f s).1 v → G.drawn (f s).2 v) : Contained G K (modifyGet f) V where
  passed s hs s' hs' := by
    rw [List.mem_singleton.mp hs']
    exact h s hs
  ends := h
  answers := hV

theorem contained_modify {g : σ → σ} (h : ∀ s, G.Admits K s → G.Leads s (g s)) : Contained G K (modify g) (Silent Unit) :=
  contained_modifyGet h fun _ _ _ => False.elim

namespace Contained

theorem bind {m : Walk σ α} {f : α → Walk σ β} (hm : Contained G K m V) (hf : ∀ a, Contained G (fun v => V a v ∨ K v) (f a) W) :
    Contained G K (m >>= f) W := by
  have hnext (s : σ) (hs : G.Admits K s) : G.Admits (fun v => V (m.run s).1 v ∨ K v) (m.run s).2 := by
    refine ⟨(hm.ends s hs).good, fun v hv => ?_⟩
    rcases hv with hv | hv
    · exact hm.answers s hs v hv
    · exact (hm.ends s hs).keeps v (hs.knows v hv)
  refine ⟨fun s hs s' hs' => ?_, fun s hs => ?_, fun s hs => (hf _).answers _ (hnext s hs)⟩
  · rw [passed_bind, List.mem_append] at hs'
    rcases hs' with hs' | hs'
    · exact hm.passed s hs s' hs'
    · exact (hm.ends s hs).trans ((hf _).passed _ (hnext s hs) s' hs')
  · exact (hm.ends s hs).trans ((hf _).ends _ (hnext s hs))

theorem knows {m : Walk σ α} (hm : Contained G K' m V) (h : ∀ v, K' v → K v) : Contained G K m V := by
  have hadmits (s : σ) (hs : G.Admits K s) : G.Admits K' s := ⟨hs.good, fun v hv => hs.knows v (h v hv)⟩
  exact ⟨fun s hs => hm.passed s (hadmits s hs), fun s hs => hm.ends s (hadmits s hs), fun s hs => hm.answers s (hadmits s hs)⟩

theorem after {m : Walk σ α} {f : α → Walk σ β} (hm : Contained G K m (Silent α)) (hf : ∀ a, Contained G K (f a) W) :
    Contained G K (m >>= f) W := by
  refine hm.bind fun a => ?_
  exact (hf a).knows fun _ => .inr

theorem zoom {H : Guard τ} {m : Walk τ α} {view : σ → τ} {put : σ → τ → σ} (hm : Contained H K m V)
    (hview : ∀ s, G.Admits K s → H.Admits K (view s)) (hput : ∀ s t, G.good s → H.Leads (view s) t → G.Leads s (put s t))
    (hdrawn : ∀ s t v, H.drawn t v → G.drawn (put s t) v) : Contained G K (Walk.zoom view put m) V where
  passed s hs s' hs' := by
    obtain ⟨t, ht, rfl⟩ := List.mem_map.mp hs'
    exact hput s t hs.good (hm.passed _ (hview s hs) t ht)
  ends s hs := hput s _ hs.good (hm.ends _ (hview s hs))
  answers s hs v hv := hdrawn s _ v (hm.answers _ (hview s hs) v hv)

end Contained

theorem contained_get {f : σ → Walk σ α} {R : σ → Var → Prop} (hR : ∀ s, G.good s → ∀ v, R s v → G.drawn s v)
    (h : ∀ s, Contained G (fun v => R s v ∨ K v) (f s) V) : Contained G K (get >>= f) V := by
  have hadmits (s : σ) (hs : G.Admits K s) : G.Admits (fun v => R s v ∨ K v) s := by
    refine ⟨hs.good, fun v hv => ?_⟩
    rcases hv with hv | hv
    · exact hR s hs.good v hv
    · exact hs.knows v hv
  exact ⟨fun s hs => (h s).passed s (hadmits s hs), fun s hs => (h s).ends s (hadmits s hs), fun s hs => (h s).answers s (hadmits s hs)⟩

theorem contained_ite {p : Prop} [Decidable p] {m m' : Walk σ α} (h : p → Contained G K m V) (h' : ¬ p → Contained G K m' V) :
    Contained G K (if p then m else m') V := by
  split
  next hp => exact h hp
  next hp => exact h' hp

theorem contained_forM {f : β → Walk σ Unit} {as : List β} (h : ∀ a ∈ as, Contained G K (f a) (Silent Unit)) :
    Contained G K (as.forM f) (Silent Unit) := by
  induction as with
  | nil => exact contained_idle
  | cons a as ih =>
      rw [List.forall_mem_cons] at h
      exact h.1.after fun _ => ih h.2

theorem contained_cons {a : α} {m : Walk σ (List α)} (ha : ∀ v, V a v → K v) (hm : Contained G K m fun as v => ∃ a ∈ as, V a v) :
    Contained G K (m >>= fun as => pure (a :: as)) fun as v => ∃ a ∈ as, V a v := by
  refine hm.bind fun as => ?_
  refine contained_pure fun v hv => ?_
  rcases (List.exists_mem_cons_iff ..).mp hv with hv | hv
  · exact .inr (ha v hv)
  · exact .inl hv

theorem contained_mapM {f : β → Walk σ α} {as : List β} (h : ∀ a ∈ as, Contained G K (f a) V) :
    Contained G K (as.mapM f) fun bs v => ∃ b ∈ bs, V b v := by
  induction as with
  | nil => exact contained_pure nofun
  | cons a as ih =>
      rw [List.forall_mem_cons] at h
      rw [List.mapM_cons]
      refine h.1.bind fun b => ?_
      exact contained_cons (fun _ => .inl) ((ih h.2).knows fun _ => .inr)

end Walk

end RowTyping
