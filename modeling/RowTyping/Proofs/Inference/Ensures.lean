import RowTyping.Infer.Expr

namespace RowTyping.InferM

variable {α β : Type} {c : Context} {Q : α → Context → Prop} {Q' : β → Context → Prop}

def Ensures (m : InferM α) (c : Context) (Q : α → Context → Prop) : Prop :=
  Q (m.run c).1 (m.run c).2

theorem Ensures.intro {m : InferM α} (h : Q (m.run c).1 (m.run c).2) : Ensures m c Q := h

theorem Ensures.mono {m : InferM α} {Q' : α → Context → Prop} (h : Ensures m c Q) (himp : ∀ a c', Q a c' → Q' a c') :
    Ensures m c Q' :=
  himp _ _ h

theorem Ensures.bind {m : InferM α} {f : α → InferM β} (hm : Ensures m c Q) (hf : ∀ a c', Q a c' → Ensures (f a) c' Q') :
    Ensures (m >>= f) c Q' :=
  hf _ _ hm

theorem ensures_after {m : InferM α} {f : α → InferM β} (h : ∀ a c', Ensures (f a) c' Q') : Ensures (m >>= f) c Q' :=
  h _ _

theorem Ensures.followed {m : InferM α} {f : α → InferM β} {R : α → Context → β → Context → Prop} (hm : Ensures m c Q)
    (hf : ∀ a c', Ensures (f a) c' (R a c')) : Ensures m c fun a c' => Q a c' ∧ Ensures (m >>= f) c (R a c') :=
  ⟨hm, hf _ _⟩

theorem ensures_pure {a : α} (h : Q a c) : Ensures (pure a) c Q := h

theorem ensures_get {f : Context → InferM α} (h : Ensures (f c) c Q) : Ensures (get >>= f) c Q := h

theorem ensures_modify {g : Context → Context} {f : Unit → InferM α} (h : Ensures (f ()) (g c) Q) :
    Ensures (modify g >>= f) c Q := h

theorem ensures_flush {f : Unit → InferM α} (h : Ensures (f ()) c.flush Q) : Ensures (flush >>= f) c Q := h

theorem ensures_solve {f : Unit → InferM α} (h : Ensures (f ()) c.solve Q) : Ensures (solve >>= f) c Q := h

theorem ensures_ite {p : Prop} [Decidable p] {m m' : InferM α} (h : p → Ensures m c Q) (h' : ¬ p → Ensures m' c Q) :
    Ensures (if p then m else m') c Q := by
  split
  next hp => exact h hp
  next hp => exact h' hp

theorem Ensures.noted {m : InferM TypedExpr} {e : Expr} {Q Q' : TypedExpr → Context → Prop} (h : Ensures m c Q)
    (hnote : ∀ typed c', Q typed c' → Q' typed (c'.note e.id typed.ty (.ofExpr e))) : Ensures (noted e m) c Q' := by
  rw [Ensures, run_noted]
  exact hnote _ _ h

theorem ensures_forM {P : Context → Prop} {f : α → InferM Unit} {as : List α} (hc : P c)
    (h : ∀ a ∈ as, ∀ c, P c → Ensures (f a) c fun _ => P) : Ensures (as.forM f) c fun _ => P := by
  induction as generalizing c with
  | nil => exact hc
  | cons a as ih =>
      refine (h a List.mem_cons_self c hc).bind fun _ c' hc' => ?_
      refine ih hc' fun a' ha' => ?_
      exact h a' (List.mem_cons_of_mem a ha')

end RowTyping.InferM
