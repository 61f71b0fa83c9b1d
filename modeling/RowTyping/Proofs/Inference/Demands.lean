import RowTyping.Proofs.Absorption
import RowTyping.Proofs.Inference.Bindings

namespace RowTyping

namespace TypedExpr

def isVar : TypedExpr → Bool
  | .var _ _ => true
  | _ => false

def operands : TypedExpr → List Ty
  | .binary _ _ l r => [l.ty, r.ty]
  | .unary _ _ operand => [operand.ty]
  | _ => []

end TypedExpr

def ClassConstraint.Asks (k : ClassConstraint) (node : NodeId) (p : Predicate) : Prop :=
  k.origin ≠ .literal ∧ k.node = node ∧ p = ⟨k.className, k.ty⟩

namespace Context

variable {c c₁ c' : Context}

def Demands (c : Context) (node : NodeId) (p : Predicate) : Prop :=
  (∃ k ∈ c.classes.toList, k.Asks node p) ∨ ∃ r ∈ c.resolved.get node, p = ⟨r.className, r.ty⟩

def Raises (P : NodeId → Predicate → Prop) (c c' : Context) : Prop :=
  ∀ node p, c'.Demands node p → c.Demands node p ∨ P node p

def Calm (c c' : Context) : Prop :=
  ∀ node p, c'.Demands node p → c.Demands node p

theorem Calm.refl (c : Context) : c.Calm c :=
  fun _ _ h => h

theorem Calm.trans (h : c.Calm c₁) (h' : c₁.Calm c') : c.Calm c' :=
  fun node p hp => h node p (h' node p hp)

theorem Calm.of_eq (hclasses : c'.classes = c.classes) (hresolved : c'.resolved = c.resolved) : c.Calm c' :=
  fun _ _ hp => by rwa [Demands, hclasses, hresolved] at hp

theorem Calm.raises (h : c.Calm c₁) {P : NodeId → Predicate → Prop} (h' : Raises P c₁ c') : Raises P c c' :=
  fun node p hp => (h' node p hp).imp_left (h node p)

theorem raises_addClass (c : Context) (className : String) (t : Ty) (node : NodeId) (origin : Origin) :
    Raises (fun i p => origin ≠ .literal ∧ i = node ∧ p = ⟨className, t⟩) c (c.addClass className t node origin) := by
  rintro i p (⟨k, hk, hasks⟩ | hr)
  · have hk : k ∈ (c.classes.push ⟨className, t, c.path, node, origin⟩).toList := hk
    rw [Scopes.push, Scopes.toList_append] at hk
    rcases List.mem_append.mp hk with hk | hk
    · exact .inl (.inl ⟨k, hk, hasks⟩)
    · obtain rfl := List.mem_singleton.mp hk
      exact .inr ⟨hasks.1, hasks.2.1.symm, hasks.2.2⟩
  · exact .inl (.inr hr)

theorem calm_flush (c : Context) : c.Calm c.flush :=
  .of_eq classes_flush resolved_flush

end Context

namespace State

variable {s s₁ s' : State} {t u w : Ty} {node : NodeId} {n : TypedExpr} {ids ids' : List NodeId} {ns ns' : List TypedExpr}

def Unites (s : State) (t u : Ty) : Prop :=
  ∀ σ : Substitution, σ.Extends s.subst → σ.Acyclic → σ.Ordered → σ.apply t = σ.apply u

theorem Unites.refl (s : State) (t : Ty) : s.Unites t t :=
  fun _ _ _ _ => rfl

theorem Unites.trans (h : s.Unites t u) (h' : s.Unites u w) : s.Unites t w :=
  fun σ hσ hacyclic hord => (h σ hσ hacyclic hord).trans (h' σ hσ hacyclic hord)

theorem Unites.mono (h : s.Unites t u) (hgrows : s'.subst.Extends s.subst) : s'.Unites t u :=
  fun σ hσ => h σ (hσ.trans hgrows)

theorem unites_apply (ht : t.Ordered) : s.Unites (s.subst.apply t) t :=
  fun _ hσ hacyclic hord => hacyclic.apply_absorbed hord hσ.honours (hord.of_extends hσ) ht

theorem Unites.symm (h : s.Unites t u) : s.Unites u t :=
  fun σ hσ hacyclic hord => (h σ hσ hacyclic hord).symm

def Traces (s s' : State) (node : NodeId) : Prop :=
  ∀ p, s'.context.Demands node p → ∃ p₀, s.context.Demands node p₀ ∧ p.className = p₀.className ∧ s'.Unites p.ty p₀.ty

theorem Traces.of_calm (h : s.context.Calm s'.context) (node : NodeId) : s.Traces s' node :=
  fun p hp => ⟨p, h node p hp, rfl, .refl s' p.ty⟩

theorem Traces.trans (h : s.Traces s₁ node) (h' : s₁.Traces s' node) (hgrows : s'.subst.Extends s₁.subst) : s.Traces s' node := by
  intro p hp
  obtain ⟨p₁, hp₁, hname₁, hunites₁⟩ := h' p hp
  obtain ⟨p₀, hp₀, hname₀, hunites₀⟩ := h p₁ hp₁
  exact ⟨p₀, hp₀, hname₁.trans hname₀, hunites₁.trans (hunites₀.mono hgrows)⟩

/-- What is demanded of the node, its operator dispatches on, and on one class only. -/
structure Serves (s : State) (n : TypedExpr) : Prop where
  dispatched : ∀ p, s.context.Demands n.id p → ∃ d ∈ n.dispatch?, p.className ∈ d.1 ∧ s.Unites p.ty d.2
  single : ∀ p p', s.context.Demands n.id p → s.context.Demands n.id p' → p.className = p'.className
  operands : ∀ d ∈ n.dispatch?, ∀ t ∈ n.operands, s.Same d.2 t

theorem Serves.later (h : s.Serves n) (htraces : s.Traces s' n.id) (hfollows : s.Follows s') : s'.Serves n where
  dispatched p hp := by
    obtain ⟨p₀, hp₀, hname, hunites⟩ := htraces p hp
    obtain ⟨d, hd, hclass, hoperand⟩ := h.dispatched p₀ hp₀
    exact ⟨d, hd, hname ▸ hclass, hunites.trans (hoperand.mono hfollows.grows)⟩
  single p p' hp hp' := by
    obtain ⟨p₀, hp₀, hname, -⟩ := htraces p hp
    obtain ⟨p₁, hp₁, hname', -⟩ := htraces p' hp'
    rw [hname, hname', h.single p₀ p₁ hp₀ hp₁]
  operands d hd t ht := hfollows.same (h.operands d hd t ht)

def Spares (s : State) (ids : List NodeId) : Prop :=
  ∀ i ∈ ids, ∀ p, ¬ s.context.Demands i p

structure Tracks (s : State) (ids : List NodeId) (ns : List TypedExpr) (s' : State) : Prop where
  perm : (ns.map TypedExpr.id).Perm ids
  traces : ∀ i, i ∉ ids → s.Traces s' i
  serves : ids.Nodup → s.Spares ids → ∀ n ∈ ns, n.isVar = false → s'.Serves n

namespace Tracks

theorem of_calm (h : s.context.Calm s'.context) : s.Tracks [] [] s' :=
  ⟨.refl _, fun i _ => .of_calm h i, fun _ _ => List.forall_mem_nil _⟩

theorem mem_ids (h : s.Tracks ids ns s') (hn : n ∈ ns) : n.id ∈ ids :=
  h.perm.subset (List.mem_map_of_mem hn)

theorem spares (h : s.Tracks ids ns s') (hdisjoint : ids.Disjoint ids') (hspares : s.Spares ids') : s'.Spares ids' := by
  intro i hi p hp
  obtain ⟨p₀, hp₀, -⟩ := h.traces i (fun hmem => hdisjoint hmem hi) p hp
  exact hspares i hi p₀ hp₀

theorem trans (h : s.Tracks ids ns s₁) (h' : s₁.Tracks ids' ns' s') (hfollows : s₁.Follows s') :
    s.Tracks (ids ++ ids') (ns ++ ns') s' where
  perm := by
    rw [List.map_append]
    exact h.perm.append h'.perm
  traces i hi := by
    rw [List.mem_append, not_or] at hi
    exact (h.traces i hi.1).trans (h'.traces i hi.2) hfollows.grows
  serves hnodup hspares n hn hvar := by
    obtain ⟨hnodup, hnodup', hdisjoint⟩ := List.nodup_append'.mp hnodup
    have hspares₁ : s.Spares ids := fun i hi => hspares i (List.mem_append_left _ hi)
    have hspares' : s.Spares ids' := fun i hi => hspares i (List.mem_append_right _ hi)
    rcases List.mem_append.mp hn with hn | hn
    · have hid : n.id ∉ ids' := fun hmem => hdisjoint (h.mem_ids hn) hmem
      exact (h.serves hnodup hspares₁ n hn hvar).later (h'.traces n.id hid) hfollows
    · exact h'.serves hnodup' (h.spares hdisjoint hspares') n hn hvar

theorem follow (h : s.Tracks ids ns s₁) (htraces : ∀ i, s₁.Traces s' i) (hfollows : s₁.Follows s') : s.Tracks ids ns s' :=
  ⟨h.perm, fun i hi => (h.traces i hi).trans (htraces i) hfollows.grows, fun hnodup hspares n hn hvar =>
    (h.serves hnodup hspares n hn hvar).later (htraces n.id) hfollows⟩

theorem calm (h : s.Tracks ids ns s₁) (hcalm : s₁.context.Calm s'.context) (hfollows : s₁.Follows s') : s.Tracks ids ns s' :=
  h.follow (fun i => .of_calm hcalm i) hfollows

theorem parent (h : s.Tracks ids ns s₁) (hnodes : n.nodes = n :: ns) (htraces : ∀ i, i ≠ n.id → s₁.Traces s' i) (hfollows : s₁.Follows s')
    (hserves : s₁.Spares [n.id] → n.isVar = false → s'.Serves n) : s.Tracks (n.id :: ids) n.nodes s' where
  perm := by
    rw [hnodes]
    exact h.perm.cons n.id
  traces i hi := by
    rw [List.mem_cons, not_or] at hi
    exact (h.traces i hi.2).trans (htraces i hi.1) hfollows.grows
  serves hnodup hspares m hm hvar := by
    obtain ⟨hid, hnodup⟩ := List.nodup_cons.mp hnodup
    rcases List.mem_cons.mp (hnodes ▸ hm) with rfl | hm
    · refine hserves (h.spares (List.disjoint_singleton.mpr hid) fun i hi => hspares i ?_) hvar
      exact List.mem_singleton.mp hi ▸ List.mem_cons_self
    · have hne : m.id ≠ n.id := fun heq => hid (heq ▸ h.mem_ids hm)
      exact (h.serves hnodup (fun i hi => hspares i (List.mem_cons_of_mem _ hi)) m hm hvar).later (htraces m.id hne) hfollows

theorem silent (h : s.Tracks ids ns s') (hnodes : n.nodes = n :: ns) (hdispatch : n.dispatch? = none) :
    s.Tracks (n.id :: ids) n.nodes s' := by
  refine h.parent hnodes (fun i _ => .of_calm (.refl _) i) (.refl s') fun hspares _ => ?_
  have hnone (p : Predicate) : ¬ s'.context.Demands n.id p := hspares n.id (List.mem_singleton_self _) p
  refine ⟨fun p hp => absurd hp (hnone p), fun p _ hp => absurd hp (hnone p), fun d hd => ?_⟩
  rw [hdispatch] at hd
  cases hd

theorem operator (h : s.Tracks ids ns s₁) (hnodes : n.nodes = n :: ns) {q : Predicate} {d : List String × Ty}
    (hraises : s₁.context.Raises (fun i p => i = n.id ∧ p = q) s'.context) (hfollows : s₁.Follows s')
    (hd : n.dispatch? = some d) (hclass : q.className ∈ d.1) (hunites : s'.Unites q.ty d.2) (hoperands : ∀ t ∈ n.operands, s'.Same d.2 t) :
    s.Tracks (n.id :: ids) n.nodes s' := by
  refine h.parent hnodes (fun i hi p hp => ⟨p, (hraises i p hp).resolve_right fun hnew => hi hnew.1, rfl, .refl s' p.ty⟩) hfollows
    fun hspares _ => ?_
  have hone {p : Predicate} (hp : s'.context.Demands n.id p) : p = q :=
    ((hraises n.id p hp).resolve_left (hspares n.id (List.mem_singleton_self _) p)).2
  refine ⟨fun p hp => ⟨d, hd, ?_⟩, fun p p' hp hp' => by rw [hone hp, hone hp'], fun d' hd' t ht => ?_⟩
  · rw [hone hp]
    exact ⟨hclass, hunites⟩
  · obtain rfl := Option.some.inj (hd.symm.trans hd')
    exact hoperands t ht

end Tracks

end State

end RowTyping
