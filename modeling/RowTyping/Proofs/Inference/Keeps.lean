import RowTyping.Proofs.Inference.Flush
import RowTyping.Proofs.Inference.State

namespace RowTyping

structure Context.Alike (c c' : Context) : Prop where
  unifier : c'.unifier = c.unifier
  equations : c'.equations = c.equations
  classes : c'.classes = c.classes
  resolved : c'.resolved = c.resolved

namespace State

variable {s : State} {c : Context}

theorem rel_refl (l : Option Layout) (sup : Supply) : Option.Rel (fun φ φ' : Layout => φ.Agrees φ' sup) l l := by
  cases l with
  | none => exact .none
  | some φ => exact .some (.refl φ sup)

theorem Ready.alike (hs : s.Ready) (h : s.context.Alike c) : Ready ⟨c, s.layout⟩ := by
  obtain ⟨⟨u, q, k, p, r, i, st, ev⟩, l⟩ := s
  obtain ⟨u', q', k', p', r', i', st', ev'⟩ := c
  obtain ⟨rfl, rfl, rfl, rfl⟩ := h
  obtain ⟨hunifier, hrecords, hconforms, hshaped, hequations, hclasses, hresolved⟩ := hs
  refine ⟨hunifier, hrecords, hconforms, hshaped, fun q hq => ?_, hclasses, hresolved⟩
  exact (hequations q hq).imp (fun t ht => ⟨ht.within, ht.conforms, ht.shaped⟩) fun r hr => ⟨hr.within, hr.conforms, hr.shaped⟩

theorem Leads.of_follows {s' : State} (h : s.Follows s') (hclasses : s'.context.classes = s.context.classes) : s.Leads s' := by
  refine ⟨h, fun t => t, [], ?_, fun t ht => ht.mono h.covers, fun _ _ _ _ => rfl⟩
  rw [Scopes.append_nil, hclasses]
  exact (Scopes.map_id _).symm

theorem Leads.alike (h : s.context.Alike c) : s.Leads ⟨c, s.layout⟩ := by
  obtain ⟨⟨u, q, k, p, r, i, st, ev⟩, l⟩ := s
  obtain ⟨u', q', k', p', r', i', st', ev'⟩ := c
  obtain ⟨rfl, rfl, rfl, rfl⟩ := h
  exact .of_follows ⟨fun _ hv => hv, .refl _, rel_refl _ _, fun h => h, fun _ hA => hA.equations, fun _ _ he => he⟩ rfl

end State

namespace InferM

variable {α β : Type} {s : State} {Q : α → State → Prop} {Q' : β → State → Prop}

def Keeps (m : InferM α) (s : State) (Q : α → State → Prop) : Prop :=
  ∃ l : Option Layout, s.Leads ⟨(m.run s.context).2, l⟩ ∧ State.Ready ⟨(m.run s.context).2, l⟩ ∧
    Q (m.run s.context).1 ⟨(m.run s.context).2, l⟩

theorem Keeps.bind {m : InferM α} {f : α → InferM β} (hm : Keeps m s Q)
    (hf : ∀ a s', s.Leads s' → s'.Ready → Q a s' → Keeps (f a) s' Q') : Keeps (m >>= f) s Q' := by
  obtain ⟨l, hleads, hready, hQ⟩ := hm
  obtain ⟨l', hleads', hready', hQ'⟩ := hf _ _ hleads hready hQ
  exact ⟨l', hleads.trans hleads', hready', hQ'⟩

theorem Keeps.mono {m : InferM α} {Q' : α → State → Prop} (hm : Keeps m s Q)
    (h : ∀ a s', s.Leads s' → s'.Ready → Q a s' → Q' a s') : Keeps m s Q' := by
  obtain ⟨l, hleads, hready, hQ⟩ := hm
  exact ⟨l, hleads, hready, h _ _ hleads hready hQ⟩

theorem Keeps.and_ensures {m : InferM α} {R : α → Context → Prop} (hm : Keeps m s Q) (h : Ensures m s.context R) :
    Keeps m s fun a s' => Q a s' ∧ R a s'.context := by
  obtain ⟨l, hleads, hready, hQ⟩ := hm
  exact ⟨l, hleads, hready, hQ, h⟩

theorem keeps_pure {a : α} (hs : s.Ready) (h : Q a s) : Keeps (pure a) s Q :=
  ⟨s.layout, .refl s, hs, h⟩

theorem keeps_get {f : Context → InferM α} (h : Keeps (f s.context) s Q) : Keeps (get >>= f) s Q := h

theorem keeps_ite {p : Prop} [Decidable p] {m m' : InferM α} (h : p → Keeps m s Q) (h' : ¬ p → Keeps m' s Q) :
    Keeps (if p then m else m') s Q := by
  split
  next hp => exact h hp
  next hp => exact h' hp

theorem keeps_modify {g : Context → Context} (hs : s.Ready) (h : s.context.Alike (g s.context)) :
    Keeps (modify g) s fun _ s' => s' = ⟨g s.context, s.layout⟩ :=
  ⟨s.layout, .alike h, hs.alike h, rfl⟩

theorem keeps_alike {g : Context → Context} (hs : s.Ready) (h : s.context.Alike (g s.context)) :
    Keeps (modify g) s fun _ _ => True :=
  (keeps_modify hs h).mono fun _ _ _ _ _ => trivial

theorem keeps_forM_each {as : List β} {f : β → InferM Unit} {R : β → State → Prop} (hs : s.Ready)
    (hR : ∀ a s₁ s₂, State.Leads s₁ s₂ → R a s₁ → R a s₂) (h : ∀ a ∈ as, ∀ s', s.Leads s' → s'.Ready → Keeps (f a) s' fun _ => R a) :
    Keeps (as.forM f) s fun _ s' => ∀ a ∈ as, R a s' := by
  induction as generalizing s with
  | nil => exact keeps_pure hs (List.forall_mem_nil _)
  | cons a as ih =>
      rw [List.forall_mem_cons] at h
      refine (h.1 s (.refl s) hs).bind fun _ s₁ h₁ hs₁ ha => ?_
      refine (ih hs₁ fun a' ha' s' h' => h.2 a' ha' s' (h₁.trans h')).mono fun _ s₂ h₂ _ has => ?_
      exact List.forall_mem_cons.mpr ⟨hR a _ _ h₂ ha, has⟩

theorem keeps_forM {as : List β} {f : β → InferM Unit} (hs : s.Ready)
    (h : ∀ a ∈ as, ∀ s', s.Leads s' → s'.Ready → Keeps (f a) s' fun _ _ => True) : Keeps (as.forM f) s fun _ _ => True :=
  (keeps_forM_each (R := fun _ _ => True) hs (fun _ _ _ _ _ => trivial) h).mono fun _ _ _ _ _ => trivial

theorem keeps_mapM {as : List β} {f : β → InferM α} {R : β → α → State → Prop} (hs : s.Ready)
    (hR : ∀ a b s₁ s₂, State.Leads s₁ s₂ → R a b s₁ → R a b s₂)
    (h : ∀ a ∈ as, ∀ s', s.Leads s' → s'.Ready → Keeps (f a) s' (R a)) :
    Keeps (as.mapM f) s fun bs s' => List.Forall₂ (R · · s') as bs := by
  induction as generalizing s with
  | nil => exact keeps_pure hs .nil
  | cons a as ih =>
      rw [List.forall_mem_cons] at h
      rw [List.mapM_cons]
      refine (h.1 s (.refl s) hs).bind fun b s₁ h₁ hs₁ hb => ?_
      refine (ih hs₁ fun a' ha' s' h' => h.2 a' ha' s' (h₁.trans h')).bind fun bs s₂ h₂ hs₂ hbs => ?_
      exact keeps_pure hs₂ (.cons (hR a b _ _ h₂ hb) hbs)

theorem keeps_note (hs : s.Ready) (node : NodeId) (t : Ty) (rule : InferRule) : Keeps (note node t rule) s fun _ _ => True :=
  keeps_alike hs ⟨rfl, rfl, rfl, rfl⟩

theorem Keeps.noted {m : InferM TypedExpr} {e : Expr} {Q Q' : TypedExpr → State → Prop} (hm : Keeps m s Q)
    (hnote : ∀ typed s₁ s', State.Leads s₁ s' → s'.context = s₁.context.note e.id typed.ty (.ofExpr e) → s₁.Ready → Q typed s₁ → Q' typed s') :
    Keeps (noted e m) s Q' := by
  rw [Keeps, run_noted]
  refine hm.bind (f := fun typed => note e.id typed.ty (.ofExpr e) >>= fun _ => pure typed) fun typed s₁ _ hs₁ hQ => ?_
  refine (keeps_modify hs₁ ⟨rfl, rfl, rfl, rfl⟩).bind fun _ s₂ hleads hs₂ heq => keeps_pure hs₂ ?_
  exact hnote typed s₁ s₂ hleads (congrArg State.context heq) hs₁ hQ

theorem keeps_entered (hs : s.Ready) {label : String} {m : InferM α}
    (hm : ∀ s', s.Leads s' → s'.Ready → s'.context = s.context.enter label →
      Keeps m s' fun a s'' => ∀ s₃, s''.Leads s₃ → s₃.Ready → Q a s₃) :
    Keeps (within label m) s Q := by
  refine (keeps_modify hs ⟨rfl, rfl, rfl, rfl⟩).bind fun _ s₁ h₁ hs₁ heq => ?_
  refine (hm s₁ h₁ hs₁ (congrArg State.context heq)).bind fun a s₂ h₂ hs₂ hQ => ?_
  exact (keeps_alike hs₂ ⟨rfl, rfl, rfl, rfl⟩).bind fun _ s₃ h₃ hs₃ _ => keeps_pure hs₃ (hQ s₃ h₃ hs₃)

theorem keeps_within (hs : s.Ready) {label : String} {m : InferM α}
    (hm : ∀ s', s.Leads s' → s'.Ready → Keeps m s' fun a s'' => ∀ s₃, s''.Leads s₃ → s₃.Ready → Q a s₃) :
    Keeps (within label m) s Q :=
  keeps_entered hs fun s' h hs' _ => hm s' h hs'

theorem keeps_report (hs : s.Ready) (node : NodeId) (d : Diagnostic) :
    Keeps (report node d) s fun _ s' => s'.context.errors ≠ [] := by
  have hne : ((s.context.report node d).errors) ≠ [] := List.append_ne_nil_of_right_ne_nil _ (List.cons_ne_nil _ _)
  refine ⟨s.layout, .of_follows ⟨fun _ hv => hv, .refl _, State.rel_refl _ _, fun h => absurd h hne, fun _ hA => hA.equations,
    fun _ _ he => he⟩ rfl, ?_, hne⟩
  refine ⟨⟨hs.unifier.chainless, hs.unifier.covers, hs.unifier.within⟩, hs.records, hs.conforms, hs.shaped, fun q hq => ?_,
    hs.classes, hs.resolved⟩
  exact (hs.equations q hq).imp (fun t ht => ⟨ht.within, ht.conforms, ht.shaped⟩) fun r hr => ⟨hr.within, hr.conforms, hr.shaped⟩

end InferM

namespace State

variable {s s' : State} {l : Option Layout} {sup : Supply}

theorem Follows.ownsGoal (h : s.Follows s') {g : Goal} (hg : s.OwnsGoal g) : s'.OwnsGoal g :=
  hg.imp (fun _ => h.owns) fun _ => h.ownsRow

def withSupply (s : State) (sup : Supply) (l : Option Layout) : State :=
  ⟨{ s.context with unifier := { s.context.unifier with supply := sup } }, l⟩

variable (hcovers : ∀ v, s.supply.Covers v → sup.Covers v)
  (hlayout : Option.Rel (fun φ φ' : Layout => φ.Agrees φ' s.supply) s.layout l)

include hcovers hlayout

theorem Leads.withSupply : s.Leads (s.withSupply sup l) :=
  .of_follows ⟨hcovers, .refl _, hlayout, fun h => h, fun _ hA => hA.equations, fun _ _ he => he⟩ rfl

theorem Ready.withSupply (hs : s.Ready) (hrecords : ∀ φ ∈ l, φ.Records) : (s.withSupply sup l).Ready := by
  have h : s.Follows (s.withSupply sup l) := (Leads.withSupply hcovers hlayout).toFollows
  have hwithin : s.subst.Within sup :=
    ⟨fun id t ht => (hs.unifier.within.1 id t ht).mono hcovers, fun id r hr => (hs.unifier.within.2 id r hr).mono hcovers⟩
  refine ⟨⟨hs.unifier.chainless, fun v hv => hcovers v (hs.unifier.covers v hv), hwithin⟩, hrecords, fun φ' hφ' => ?_,
    fun φ' hφ' => ?_, fun q hq => h.ownsGoal (hs.equations q hq), fun k hk => (hs.classes k hk).mono hcovers, hs.resolved⟩
  · obtain ⟨φ, hφ, hagree⟩ := h.agrees hφ'
    exact (hs.conforms φ hφ).agrees hagree hs.unifier.within hs.unifier.covers
  · obtain ⟨φ, hφ, hagree⟩ := h.agrees hφ'
    exact hagree.positional ▸ hs.shaped φ hφ

end State

namespace InferM

variable {s : State}

theorem keeps_freshTypeVar (hs : s.Ready) : Keeps freshTypeVar s fun v s' => s'.supply.Covers (.type v) := by
  have hcovers : ∀ v, s.supply.Covers v → s.supply.freshType.2.Covers v := by
    rintro (v | v) hv
    · exact Nat.lt_succ_of_lt hv
    · exact hv
  have hlayout := State.rel_refl s.layout s.supply
  exact ⟨s.layout, .withSupply hcovers hlayout, hs.withSupply hcovers hlayout hs.records, Nat.lt_succ_self _⟩

theorem keeps_freshType (hs : s.Ready) : Keeps freshType s fun t s' => s'.Owns t :=
  (keeps_freshTypeVar hs).bind fun _ _ _ hs' hv => keeps_pure hs' (State.owns_var hv)

theorem keeps_freshRow (hs : s.Ready) (fs : Option Fields) :
    Keeps freshRow s fun r s' => s'.supply.Covers (.row r) ∧ ∀ φ ∈ s'.layout, φ.fields r = fs := by
  have hcovers : ∀ v, s.supply.Covers v → s.supply.freshRow.2.Covers v := fun _ hv => hv.freshRow
  have hlayout : Option.Rel (fun φ φ' : Layout => φ.Agrees φ' s.supply) s.layout
      (s.layout.map fun φ => φ.extend s.supply.nextRow fs) := by
    cases s.layout with
    | none => exact .none
    | some φ => exact .some (φ.agrees_extend _ fs)
  refine ⟨_, .withSupply hcovers hlayout, hs.withSupply hcovers hlayout fun φ' hφ' => ?_, Nat.lt_succ_self _, fun φ' hφ' => ?_⟩
  · obtain ⟨φ, hφ, rfl⟩ := Option.map_eq_some_iff.mp hφ'
    exact ⟨(hs.records φ hφ).tracks, (hs.records φ hφ).held⟩
  · obtain ⟨φ, hφ, rfl⟩ := Option.map_eq_some_iff.mp hφ'
    exact φ.extend_self _ fs

end InferM

end RowTyping
