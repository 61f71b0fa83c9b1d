import RowTyping.Proofs.Inference.Captures
import RowTyping.Proofs.Patterns
import RowTyping.Proofs.Quantification

namespace RowTyping

namespace State

variable {s s' : State} {session : Session} {sites : Sites} {e n : TypedExpr} {group : List TypedBinding} {className : String} {t : Ty}

def Same (s : State) (t u : Ty) : Prop :=
  s.Entails fun A => t.value A = u.value A

theorem Same.trans {t u w : Ty} (h : s.Same t u) (h' : s.Same u w) : s.Same t w :=
  fun A hA => (h A hA).trans (h' A hA)

theorem Same.symm {t u : Ty} (h : s.Same t u) : s.Same u t :=
  fun A hA => (h A hA).symm

structure PatternTyped (s : State) (session : Session) (p : TypedPattern) : Prop where
  ty : s.Owns p.ty
  constrains : p.Constrains session.config.encoding

structure NodeTyped (s : State) (session : Session) (sites : Sites) (n : TypedExpr) : Prop where
  within : ∀ t ∈ n.types, t.Within s.supply
  rows : ∀ e ∈ n.rows, e.toRow.Within s.supply
  predicates : ∀ b ∈ n.group, ∀ p ∈ b.scheme.predicates, p.ty.Within s.supply
  patterns : s.layout.isSome → ∀ p ∈ n.patterns, s.PatternTyped session p
  rule : s.Rowed → s.Entails fun A => n.Rule (Ty.value A)
  gathers : s.Entails fun A => n.Gathers (Ty.value A) (Effects.value A)
  signed : s.Entails fun A => n.Signed session.signatures (Effects.value A)
  met : n.IsFunction → ∃ env lambda c, sites env lambda ∧ s.Meets session n env lambda c

def Pending (s : State) (node : NodeId) (className : String) (t : Ty) : Prop :=
  ∃ k ∈ s.context.classes.toList, k.className = className ∧ k.node = node ∧ k.origin = .operator ∧ s.Same k.ty t

def Recorded (s : State) (node : NodeId) (className : String) (t : Ty) : Prop :=
  ∃ r ∈ s.context.resolved.get node, r.className = className ∧ s.Same r.ty t

def Carried (s : State) (group : List TypedBinding) (className : String) (t : Ty) : Prop :=
  ∃ b ∈ group, ∃ p ∈ b.scheme.predicates, p.className = className ∧ s.Same p.ty t

def Enclosed (s : State) (e n : TypedExpr) (className : String) (t : Ty) : Prop :=
  ∃ m ∈ e.nodes, (∃ b ∈ m.group, n ∈ b.value.nodes) ∧ s.Carried m.group className t

def Accounted (s : State) (group : List TypedBinding) (e n : TypedExpr) : Prop :=
  ∀ d ∈ n.dispatch?, s.context.errors = [] → ∃ className ∈ d.1, s.Pending n.id className d.2 ∨ s.Recorded n.id className d.2 ∨
    s.Enclosed e n className d.2 ∨ s.Carried group className d.2

theorem Carried.trans {u : Ty} (h : s.Carried group className t) (htu : s.Same t u) : s.Carried group className u := by
  obtain ⟨b, hb, p, hp, hname, hsame⟩ := h
  exact ⟨b, hb, p, hp, hname, hsame.trans htu⟩

structure Typed (s : State) (session : Session) (sites : Sites) (group : List TypedBinding) (e : TypedExpr) : Prop where
  nodes : ∀ n ∈ e.nodes, s.NodeTyped session sites n
  accounted : ∀ n ∈ e.nodes, s.Accounted group e n

structure Inferred (s : State) (session : Session) (sites : Sites) (e : TypedExpr) : Prop extends s.Typed session sites [] e where
  ty : s.Owns e.ty
  effects : s.OwnsEffects e.effects

section Later

theorem Follows.same (h : s.Follows s') {t u : Ty} (hsame : s.Same t u) : s'.Same t u :=
  h.entails hsame

theorem Follows.patternTyped (h : s.Follows s') {p : TypedPattern} (hp : s.PatternTyped session p) : s'.PatternTyped session p :=
  ⟨h.owns hp.ty, hp.constrains⟩

theorem Follows.nodeTyped (h : s.Follows s') (hn : s.NodeTyped session sites n) : s'.NodeTyped session sites n :=
  ⟨fun t ht => (hn.within t ht).mono h.covers, fun e he => (hn.rows e he).mono h.covers,
    fun b hb p hp => (hn.predicates b hb p hp).mono h.covers,
    fun hsome p hp => h.patternTyped (hn.patterns (h.isSome ▸ hsome) p hp), fun hrowed => h.entails (hn.rule (h.rowed.mp hrowed)),
    h.entails hn.gathers, h.entails hn.signed, fun hfn => (hn.met hfn).imp fun _ => .imp fun _ => .imp fun _ => .imp_right h.meets⟩

theorem Follows.recorded (h : s.Follows s') {node : NodeId} (hr : s.Recorded node className t) : s'.Recorded node className t := by
  obtain ⟨r, hr, hname, hsame⟩ := hr
  exact ⟨r, h.resolved node r hr, hname, h.same hsame⟩

theorem Follows.carried (h : s.Follows s') (hc : s.Carried group className t) : s'.Carried group className t := by
  obtain ⟨b, hb, p, hp, hname, hsame⟩ := hc
  exact ⟨b, hb, p, hp, hname, h.same hsame⟩

theorem Follows.enclosed (h : s.Follows s') (he : s.Enclosed e n className t) : s'.Enclosed e n className t := by
  obtain ⟨m, hm, hvalue, hcarried⟩ := he
  exact ⟨m, hm, hvalue, h.carried hcarried⟩

theorem Leads.pending (h : s.Leads s') (hs : s.Ready) {node : NodeId} (hk : s.Pending node className t) :
    s'.Pending node className t := by
  obtain ⟨k, hk, hname, hnode, horigin, hsame⟩ := hk
  obtain ⟨g, ks, hclasses, hg⟩ := h.classes
  refine ⟨k.mapTy g, ?_, hname, hnode, horigin, fun A hA => ?_⟩
  · rw [hclasses, Scopes.toList_append, Scopes.toList_map]
    exact List.mem_append_left _ (List.mem_map_of_mem hk)
  · exact (hg.value k.ty (hs.classes k hk) A hA).trans (hsame A (h.accepts hA))

theorem Leads.typed (h : s.Leads s') (hs : s.Ready) (he : s.Typed session sites group e) : s'.Typed session sites group e where
  nodes n hn := h.nodeTyped (he.nodes n hn)
  accounted n hn d hd herrors := by
    obtain ⟨className, hclass, hcases⟩ := he.accounted n hn d hd (h.errors herrors)
    refine ⟨className, hclass, ?_⟩
    rcases hcases with hp | hr | hb | hc
    · exact .inl (h.pending hs hp)
    · exact .inr (.inl (h.recorded hr))
    · exact .inr (.inr (.inl (h.enclosed hb)))
    · exact .inr (.inr (.inr (h.carried hc)))

theorem Leads.inferred (h : s.Leads s') (hs : s.Ready) (he : s.Inferred session sites e) : s'.Inferred session sites e :=
  ⟨h.typed hs he.toTyped, h.owns he.ty, h.ownsEffects he.effects⟩

end Later

section Node

theorem inferred_node (hchildren : ∀ c ∈ e.children, s.Typed session sites [] c ∨ ∃ b ∈ e.group, b.value = c ∧ s.Typed session sites e.group c)
    (hself : s.NodeTyped session sites e)
    (hdispatch : ∀ d ∈ e.dispatch?, s.context.errors = [] → ∃ className ∈ d.1, s.Pending e.id className d.2)
    (hty : s.Owns e.ty) (heffects : s.OwnsEffects e.effects) : s.Inferred session sites e := by
  have hsub {c n m : TypedExpr} (hc : c ∈ e.children) (hm : m ∈ c.nodes) : m ∈ e.nodes :=
    TypedExpr.mem_nodes_iff.mpr (.inr ⟨c, hc, hm⟩)
  refine ⟨⟨fun n hn => ?_, fun n hn d hd herrors => ?_⟩, hty, heffects⟩
  · rcases TypedExpr.mem_nodes_iff.mp hn with rfl | ⟨c, hc, hn⟩
    · exact hself
    · rcases hchildren c hc with h | ⟨-, -, -, h⟩
      · exact h.nodes n hn
      · exact h.nodes n hn
  · rcases TypedExpr.mem_nodes_iff.mp hn with rfl | ⟨c, hc, hn⟩
    · obtain ⟨className, hclass, hpending⟩ := hdispatch d hd herrors
      exact ⟨className, hclass, .inl hpending⟩
    · rcases hchildren c hc with h | ⟨b, hb, rfl, h⟩
      · obtain ⟨className, hclass, hcases⟩ := h.accounted n hn d hd herrors
        refine ⟨className, hclass, hcases.imp_right fun hcases => hcases.imp_right fun hcases => .inl ?_⟩
        rcases hcases with ⟨m, hm, hb⟩ | ⟨_, hb, _⟩
        · exact ⟨m, hsub (n := n) hc hm, hb⟩
        · cases hb
      · obtain ⟨className, hclass, hcases⟩ := h.accounted n hn d hd herrors
        refine ⟨className, hclass, hcases.imp_right fun hcases => hcases.imp_right fun hcases => .inl ?_⟩
        rcases hcases with ⟨m, hm, hb⟩ | hcarried
        · exact ⟨m, hsub (n := n) hc hm, hb⟩
        · exact ⟨e, e.mem_nodes_self, ⟨b, hb, hn⟩, hcarried⟩

end Node

section Applied

theorem Ready.same_apply (hs : s.Ready) {t : Ty} (ht : t.Within s.supply) : s.Same (s.subst.apply t) t :=
  hs.entails_apply ht.1

theorem Ready.same_outside (hs : s.Ready) (scheme : Scheme) {t : Ty} (ht : t.Within s.supply) :
    s.Same ((s.subst.outside scheme).apply t) t :=
  have hextends := s.subst.extends_outside scheme
  fun _ hA => (hA.models.of_extends hextends).apply hA.ordered (Substitution.All.of_extends hs.unifier.within.ordered hextends) ht.1

theorem PatternTyped.apply (hs : s.Ready) (hsome : s.layout.isSome) {p : TypedPattern} (hp : s.PatternTyped session p) :
    s.PatternTyped session (s.subst.applyPattern p) where
  ty := Substitution.ty_applyPattern s.subst p ▸ hp.ty.apply hs
  constrains := by
    refine s.subst.constrains_applyPattern hp.constrains fun row hrow l t hget => ?_
    obtain ⟨φ, hφ⟩ := Option.isSome_iff_exists.mp hsome
    have howns : s.Owns (.record row) := hrow ▸ hp.ty
    have hconf := (Row.conforms_start_iff.mp (((inherited_owns s).record howns).conforms φ hφ)).1
    refine (hs.conforms φ hφ).get?_applyRow (fun _ => False.elim) hs.unifier.within.ordered hconf ?_ hget
    cases howns.shaped φ hφ with
    | record hkind => exact hkind ▸ (hs.records φ hφ).tracks_record

theorem NodeTyped.apply (hs : s.Ready) (hn : s.NodeTyped session sites n) : s.NodeTyped session sites (s.subst.applyExpr n) where
  within := by
    rw [Substitution.types_applyExpr]
    exact List.forall_mem_map.mpr fun t ht => hs.unifier.within.apply (hn.within t ht)
  predicates := by
    rw [Substitution.group_applyExpr]
    refine List.forall_mem_map.mpr fun b hb => List.forall_mem_map.mpr fun p hp => ?_
    exact Substitution.Within.apply (hs.unifier.within.of_extends (s.subst.extends_outside b.scheme)) (hn.predicates b hb p hp)
  rows := by
    rw [Substitution.rows_applyExpr]
    exact List.forall_mem_map.mpr fun e he => hs.unifier.within.applyEffects (hn.rows e he)
  patterns hsome := by
    rw [Substitution.patterns_applyExpr]
    exact List.forall_mem_map.mpr fun p hp => (hn.patterns hsome p hp).apply hs hsome
  rule hrowed A hA := Substitution.rule_applyExpr _ <|
    (hn.rule hrowed A hA).congr fun t ht => (hs.same_apply (hn.within t ht) A hA).symm
  gathers A hA := Substitution.gathers_applyExpr _ <| (hn.gathers A hA).congr
    (fun t ht => (hs.same_apply (hn.within t ht) A hA).symm) fun e he => (hs.entails_applyEffects (hn.rows e he).1 A hA).symm
  signed A hA := Substitution.signed_applyExpr _ <|
    (hn.signed A hA).congr fun e he => (hs.entails_applyEffects (hn.rows e he).1 A hA).symm
  met hfn := by
    obtain ⟨env, lambda, c, hsite, hmeets⟩ := hn.met (s.subst.isFunction_applyExpr.mp hfn)
    exact ⟨env, lambda, c, hsite, hmeets.toGuards, hmeets.yields.applyExpr⟩

theorem Carried.apply (hs : s.Ready) (hwithin : ∀ b ∈ group, ∀ p ∈ b.scheme.predicates, p.ty.Within s.supply)
    (h : s.Carried group className t) : s.Carried (group.map s.subst.applyBinding) className t := by
  obtain ⟨b, hb, p, hp, hname, hsame⟩ := h
  refine ⟨_, List.mem_map_of_mem hb, _, List.mem_map_of_mem hp, hname, ?_⟩
  exact (hs.same_outside b.scheme (hwithin b hb p hp)).trans hsame

theorem Typed.apply (hs : s.Ready) (he : s.Typed session sites group e) : s.Typed session sites group (s.subst.applyExpr e) := by
  constructor
  · rw [Substitution.nodes_applyExpr]
    exact List.forall_mem_map.mpr fun n hn => (he.nodes n hn).apply hs
  · rw [Substitution.nodes_applyExpr]
    refine List.forall_mem_map.mpr fun n hn d hd herrors => ?_
    rw [Substitution.dispatch?_applyExpr] at hd
    obtain ⟨d, hd', rfl⟩ := Option.map_eq_some_iff.mp hd
    have hsame : s.Same d.2 (s.subst.apply d.2) :=
      (hs.same_apply ((he.nodes n hn).within _ (TypedExpr.dispatch?_mem_types hd'))).symm
    obtain ⟨className, hclass, hcases⟩ := he.accounted n hn d hd' herrors
    refine ⟨className, hclass, ?_⟩
    rw [Substitution.id_applyExpr]
    rcases hcases with ⟨k, hk, hname, hnode, horigin, h⟩ | ⟨r, hr, hname, h⟩ | ⟨m, hm, ⟨b, hb, hvalue⟩, h⟩ | h
    · exact .inl ⟨k, hk, hname, hnode, horigin, h.trans hsame⟩
    · exact .inr (.inl ⟨r, hr, hname, h.trans hsame⟩)
    · refine .inr (.inr (.inl ⟨s.subst.applyExpr m, ?_, ⟨s.subst.applyBinding b, ?_, ?_⟩, ?_⟩))
      · rw [Substitution.nodes_applyExpr]
        exact List.mem_map_of_mem hm
      · rw [Substitution.group_applyExpr]
        exact List.mem_map_of_mem hb
      · rw [Substitution.applyBinding, Substitution.nodes_applyExpr]
        exact List.mem_map_of_mem hvalue
      · rw [Substitution.group_applyExpr]
        exact (h.trans hsame).apply hs (he.nodes m hm).predicates
    · exact .inr (.inr (.inr (h.trans hsame)))

end Applied

end State

end RowTyping
