import RowTyping.Proofs.Numbering
/-!
Fresh unknowns. What runs after a type variable was drawn, and is not told of it, runs as it would have without: the numbers
of the variables drawn later move up by one. So it neither binds the variable nor mentions it, and whatever the variable is
equated with afterwards it can be bound to.
-/

namespace RowTyping

open Relation

theorem Substitution.isVar_apply (s : Substitution) {t : Ty} (h : t.isVar = false) : (s.apply t).isVar = false := by
  rw [apply]
  cases s.depth with
  | zero => exact h
  | succ n =>
      rw [chase_succ]
      cases t with
      | var v => cases h
      | _ => rfl

theorem Scopes.map_of_fixed {α : Type} {f : α → α} {s : Scopes α} (h : ∀ a ∈ s.toList, f a = a) : s.map f = s := by
  obtain ⟨root, nested⟩ := s
  have hroot : root.map f = root := (List.map_congr_left fun a ha => h a (List.mem_append_left _ ha)).trans root.map_id
  have hnested : nested.map (List.map f) = nested := (List.map_congr_left fun as has => (List.map_congr_left fun a ha =>
    h a (List.mem_append_right _ (List.mem_flatten.mpr ⟨as, List.mem_reverse.mpr has, ha⟩))).trans as.map_id).trans nested.map_id
  exact congrArg₂ mk hroot hnested

namespace Unifier

variable {u u' : Unifier} {n : Nat} {verdict : Verdict}

theorem ok_of_solved {answer : Except UnifyError Unit} (h : Verdict.ofAnswer answer = .solved) : answer = .ok () := by
  cases answer with
  | ok => rfl
  | error e =>
      rw [Verdict.ofAnswer] at h
      split at h <;> cases h

theorem run_ok {g : Goal} (h : ∀ n verdict u', Solves (n + 1) u [g] verdict u' → verdict = .solved) : (run g u).1 = .ok () := by
  obtain ⟨n, hn⟩ := depth_pos (u.applyGoal g)
  have hrun := solves_run g u
  rw [hn] at hrun
  exact ok_of_solved (h _ _ _ hrun)

theorem solves_unknown {t : Ty} {v : TypeVarId} (hfree : u.subst.apply (.ofVar v) = .ofVar v) (hvar : (u.subst.apply t).isVar = false)
    (hmiss : Var.type v ∉ (u.subst.apply t).vars) (h : Solves (n + 1) u [.types t (.ofVar v)] verdict u') : verdict = .solved := by
  have hmeet : (u.subst.apply t).meet (.ofVar v) = .bind (.star v) (u.subst.apply t) := by
    cases htype : u.subst.apply t with
    | var w => rw [htype] at hvar; cases hvar
    | _ => rfl
  have hkind : (u.subst.apply t).kind = .star := by
    cases htype : u.subst.apply t with
    | var w => rw [htype] at hvar; cases hvar
    | _ => rfl
  rw [← hfree] at hmeet
  cases h with
  | identical => rfl
  | bind _ hbind hbinds =>
      obtain ⟨rfl, rfl⟩ := Meeting.bind.inj (hmeet.symm.trans hbind)
      cases hbinds with
      | same | bound => rfl
      | refused _ _ _ hcause =>
          rcases hcause with ⟨hmem, -⟩ | hne
          · exact absurd hmem hmiss
          · exact absurd hkind.symm hne
  | parts _ hparts => cases hmeet.symm.trans hparts
  | rows _ hrows => cases hmeet.symm.trans hrows
  | clash _ hclash => cases hmeet.symm.trans hclash

section Tails

structure Joined (tails : List RowVarId) (u : Unifier) : Prop where
  chainless : u.subst.Chainless
  images : ∀ r ∈ tails, ∀ row, u.subst.lookupRow r = some row → ∃ r' ∈ tails, row = .openEffects [] r'

variable {tails : List RowVarId} {r r' : RowVarId}

theorem Joined.applyRow (hu : Joined tails u) (hr : r ∈ tails) :
    ∃ r' ∈ tails, u.subst.applyRow (.openEffects [] r) = .openEffects [] r' ∧ ¬ u.subst.Binds (.row r') := by
  have hchase (n : Nat) : ∀ r ∈ tails, ∃ r' ∈ tails, u.subst.chaseRow n (.openEffects [] r) = .openEffects [] r' := by
    induction n with
    | zero => exact fun r hr => ⟨r, hr, rfl⟩
    | succ n ih =>
        intro r hr
        rw [Substitution.chaseRow_succ]
        cases hrow : u.subst.lookupRow r with
        | none => exact ⟨r, hr, Ty.substRow_free (Option.map_eq_none_iff.mpr hrow)⟩
        | some row =>
            obtain ⟨r₁, hr₁, rfl⟩ := hu.images r hr row hrow
            obtain ⟨r₂, hr₂, hchase⟩ := ih r₁ hr₁
            refine ⟨r₂, hr₂, ?_⟩
            have hbound : (u.subst.lookupRow r).map (u.subst.chaseRow n) = some (.openEffects [] r₂) := by rw [hrow, Option.map_some, hchase]
            exact Ty.substRow_bound (ρ := fun w => (u.subst.lookupRow w).map (u.subst.chaseRow n)) hbound
  obtain ⟨r', hr', happly⟩ := hchase _ r hr
  exact ⟨r', hr', happly, hu.chainless.unbound_of_applyRow (congrArg Row.rest happly)⟩

theorem Joined.solves (hu : Joined tails u) (hr : r ∈ tails) (hr' : r' ∈ tails)
    (h : Solves (n + 1) u [.rows (.openEffects [] r) (.openEffects [] r')] verdict u') : verdict = .solved ∧ Joined tails u' := by
  obtain ⟨w, hw, happly, hunbound⟩ := hu.applyRow hr
  obtain ⟨w', hw', happly', hunbound'⟩ := hu.applyRow hr'
  have hcommon : (u.subst.applyRow (.openEffects [] r)).commonGoals (u.subst.applyRow (.openEffects [] r')) = [] := by
    rw [happly]
    rfl
  have hrecord (action : Action) (left right : Ty) : Joined tails (u.record action left right) := ⟨hu.chainless, hu.images⟩
  cases h with
  | kinds hne => exact absurd rfl hne
  | equal => exact ⟨rfl, hu⟩
  | fields _ _ hfields hne =>
      rw [hcommon] at hfields
      cases hfields
      exact absurd rfl hne
  | restart _ _ hfields hbound =>
      rw [hcommon] at hfields
      cases hfields
      rw [happly, happly', Bool.or_eq_true] at hbound
      rcases hbound with hbound | hbound
      · exact absurd (Option.isSome_iff_exists.mp hbound) hunbound
      · exact absurd (Option.isSome_iff_exists.mp hbound) hunbound'
  | tails _ _ hfields _ htails =>
      rw [hcommon] at hfields
      cases hfields
      rw [happly, happly'] at htails
      cases htails with
      | agree => exact ⟨rfl, hrecord ..⟩
      | labels _ _ hcause =>
          rcases hcause with ⟨-, hne⟩ | ⟨hnone, -⟩ | ⟨hnone, -⟩
          · exact absurd ⟨rfl, rfl⟩ hne
          · cases hnone
          · cases hnone
      | expected _ _ _ _ hnone => cases hnone
      | actual _ _ _ hnone => cases hnone
      | join _ _ _ _ hrest hrest' hne _ _ hbind =>
          obtain rfl := Option.some.inj hrest
          obtain rfl := Option.some.inj hrest'
          have hmiss : Var.row w ∉ (Row.openEffects [] w').vars := fun hmem => by
            obtain ⟨_, hf, -⟩ | ⟨x, hx, heq⟩ := Row.mem_vars.mp hmem
            · cases hf
            · exact hne ((Var.row.inj heq).trans (Option.some.inj hx).symm)
          cases hbind with
          | same => exact ⟨rfl, hrecord ..⟩
          | refused _ hmem => exact absurd hmem hmiss
          | bound =>
              refine ⟨rfl, hu.chainless.bindRow hmiss fun x hx => Option.some.inj hx ▸ hunbound', fun x hx row hrow => ?_⟩
              have hrow : (u.subst.bindRow w (.openEffects [] w')).lookupRow x = some row := hrow
              rw [Substitution.lookupRow_bindRow] at hrow
              split at hrow
              · exact ⟨w', hw', (Option.some.inj hrow).symm⟩
              · exact hu.images x hx row hrow
      | shareRefused _ _ _ _ _ _ _ hne => exact absurd ⟨rfl, rfl⟩ hne
      | share _ _ _ _ _ _ _ _ hne => exact absurd ⟨rfl, rfl⟩ hne

end Tails

end Unifier

namespace Unifier

variable {u : Unifier} {tails : List RowVarId} {r : RowVarId}

theorem Joined.solvesAll (hu : Joined tails u) (hr : r ∈ tails) {rs : List RowVarId} (hrs : ∀ r' ∈ rs, r' ∈ tails) :
    u.SolvesAll (rs.map fun r' => .rows (.openEffects [] r) (.openEffects [] r')) := by
  induction rs generalizing u with
  | nil => trivial
  | cons r' rs ih =>
      rw [List.forall_mem_cons] at hrs
      have hok := run_ok fun _ _ _ h => (hu.solves hr hrs.1 h).1
      obtain ⟨n, hn⟩ := depth_pos (u.applyGoal (.rows (.openEffects [] r) (.openEffects [] r')))
      have hrun := solves_run (.rows (.openEffects [] r) (.openEffects [] r')) u
      rw [hn] at hrun
      exact ⟨hok, ih (hu.solves hr hrs.1 hrun).2 hrs.2⟩

end Unifier

namespace Context

variable {c : Context}

theorem errors_flush_of_solvesAll (h : c.unifier.SolvesAll (c.equations.toList.map Equation.goal)) : c.flush.errors = c.errors := by
  obtain ⟨ds, hds, hok⟩ := c.errors_append_flush
  rw [hds, hok.mpr h, List.append_nil]

end Context

namespace InferM

variable {c : Context}

theorem equateTails_goals (node : NodeId) (e : Row) (rs : List RowVarId) :
    Ensures (rs.forM fun r => equateRows node .effectJoin e (.openEffects [] r)) c fun _ c' => c'.unifier = c.unifier ∧
      c'.equations.toList.map Equation.goal = c.equations.toList.map Equation.goal ++ rs.map fun r => .rows e (.openEffects [] r) := by
  induction rs generalizing c with
  | nil => exact ensures_pure ⟨rfl, (List.append_nil _).symm⟩
  | cons r rs ih =>
      apply ensures_modify
      refine ih.mono fun _ c' h => ⟨h.1, h.2.trans ?_⟩
      rw [Context.addEquation, Scopes.push, Scopes.toList_append, List.map_append, List.append_assoc]
      rfl

theorem joinEffects_errors (hequations : c.equations = .empty) (hchainless : c.subst.Chainless) (node : NodeId) (rows : List Effects) :
    Ensures (joinEffects node rows) c fun _ c' => c'.errors = c.errors := by
  apply ensures_get
  dsimp only
  split
  next first second others htails =>
    have hjoined : Unifier.Joined (first :: second :: others) c.unifier := by
      refine ⟨hchainless, fun r hr row hrow => ?_⟩
      rw [← htails, OrderedSet.mem_ofList, List.mem_filterMap] at hr
      obtain ⟨e, he, htail⟩ := hr
      obtain ⟨e, -, rfl⟩ := List.mem_map.mp he
      cases e with
      | none => cases htail
      | some e => exact absurd ⟨row, hrow⟩ (hchainless.unbound_of_applyRow htail)
    refine .bind (equateTails_goals ..) fun _ c₁ ⟨hunifier, hgoals⟩ => ensures_flush (ensures_get (ensures_pure ?_))
    rw [hequations] at hgoals
    refine (Context.errors_flush_of_solvesAll ?_).trans (congrArg Unifier.errors hunifier)
    rw [hgoals, hunifier]
    exact hjoined.solvesAll List.mem_cons_self fun _ h => List.mem_cons_of_mem _ h
  next => rfl

end InferM

structure Context.Draws (c c' : Context) : Prop where
  subst : c'.subst = c.subst
  supply : c'.unifier.supply = c.unifier.supply.freshType.2
  errors : c'.errors = c.errors
  equations : c'.equations = c.equations
  classes : c'.classes = c.classes
  path : c'.path = c.path
  resolved : c'.resolved = c.resolved
  internal : c'.internal = c.internal

namespace State

variable {s : State} {session : Session} {env : Env} {c : Context} {k : Sketch}

structure Admits (s : State) (session : Session) (env : Env) : Prop where
  ready : s.Ready
  owned : s.OwnsEnv env
  supports : s.Supports session
  quantified : ∀ scheme ∈ env.schemes, ∀ v ∈ scheme.typeVars, s.supply.Covers (.type v.id)
  ascending : OrderedMap.Ascending s.subst.types ∧ OrderedMap.Ascending s.subst.rows
  internal : s.context.internal = none

def skip (s : State) : Renumbering :=
  s.supply.onto s.supply.freshType.2

theorem ascends_skip (s : State) : s.skip.Ascends :=
  Supply.ascends_onto ⟨Nat.le_succ _, Nat.le_refl _⟩

theorem skip_misses (s : State) (v : TypeVarId) : s.skip.type v ≠ s.supply.nextType := by
  change moved s.supply.nextType (s.supply.nextType + 1) v ≠ s.supply.nextType
  rw [moved]
  split <;> omega

theorem not_mem_vars_skip (s : State) (t : Ty) : Var.type s.supply.nextType ∉ (t.renumber s.skip).vars := by
  rw [Ty.vars_renumber]
  intro hmem
  obtain ⟨v, -, heq⟩ := List.mem_map.mp hmem
  cases v with
  | type v => exact s.skip_misses v (Var.type.inj heq)
  | row => cases heq

theorem renumber_skip_of_within {t : Ty} (ht : t.Within s.supply) : t.renumber s.skip = t :=
  Ty.renumber_of_fixed fun v hv => Supply.renumber_onto_of_covers (ht.2 v hv)

theorem renumberRow_skip_of_within {r : Row} (hr : r.Within s.supply) : r.renumber s.skip = r :=
  Ty.renumber_of_fixed_both.2 r fun v hv => Supply.renumber_onto_of_covers (hr.2 v hv)

namespace Admits

variable (h : s.Admits session env)

include h

theorem renumber_subst : s.subst.renumber s.skip = s.subst := by
  have htypes : s.subst.types.mapBoth s.skip.type (Ty.renumber s.skip) = s.subst.types := by
    refine (List.map_congr_left fun e he => ?_).trans s.subst.types.map_id
    have hfind : s.subst.lookupType e.1 = some e.2 := OrderedMap.Ascending.find?_of_mem h.ascending.1 he
    have hkey : (Var.type e.1).renumber s.skip = .type e.1 :=
      Supply.renumber_onto_of_covers (h.ready.unifier.covers (.type e.1) ⟨e.2, hfind⟩)
    exact Prod.ext (Var.type.inj hkey) (renumber_skip_of_within (h.ready.unifier.within.1 e.1 e.2 hfind))
  have hrows : s.subst.rows.mapBoth s.skip.row (Row.renumber s.skip) = s.subst.rows := by
    refine (List.map_congr_left fun e he => ?_).trans s.subst.rows.map_id
    have hfind : s.subst.lookupRow e.1 = some e.2 := OrderedMap.Ascending.find?_of_mem h.ascending.2 he
    have hkey : (Var.row e.1).renumber s.skip = .row e.1 :=
      Supply.renumber_onto_of_covers (h.ready.unifier.covers (.row e.1) ⟨e.2, hfind⟩)
    exact Prod.ext (Var.row.inj hkey) (renumberRow_skip_of_within (h.ready.unifier.within.2 e.1 e.2 hfind))
  rw [Substitution.renumber, htypes, hrows]

theorem renumber_env : env.renumber s.skip = env := by
  refine Env.renumber_of_fixed fun scheme hscheme => ?_
  refine Scheme.renumber_of_fixed fun v hv => ?_
  apply Supply.renumber_onto_of_covers
  obtain ⟨hty, hpredicates, hrows⟩ := h.owned scheme hscheme
  rcases List.mem_append.mp hv with hv | hv
  · rcases List.mem_append.mp hv with hv | hv
    · exact hty.within.2 v hv
    · obtain ⟨p, hp, hv⟩ := List.mem_flatMap.mp hv
      exact (hpredicates p hp).2 v hv
  · rcases List.mem_append.mp hv with hv | hv
    · obtain ⟨w, hw, rfl⟩ := List.mem_map.mp hv
      exact h.quantified scheme hscheme w hw
    · obtain ⟨r, hr, rfl⟩ := List.mem_map.mp hv
      exact hrows r hr

theorem renders (hc : s.context.Draws c) : Sketch.Renders s.skip ⟨s.context, s.context.errors.map Report.plain⟩ c where
  unifier := ⟨hc.subst.trans h.renumber_subst.symm, by rw [hc.supply]; exact Supply.renders_onto _ _⟩
  errors := hc.errors.trans (by rw [List.map_map]; exact (List.map_id _).symm)
  equations := by
    refine hc.equations.trans (Scopes.map_of_fixed fun q hq => ?_).symm
    have hgoal := h.ready.equations q hq
    obtain ⟨g, provenance⟩ := q
    cases g with
    | types e a =>
        rw [Equation.renumber, Goal.renumber, renumber_skip_of_within hgoal.1.within, renumber_skip_of_within hgoal.2.within]
    | rows e a =>
        rw [Equation.renumber, Goal.renumber, renumberRow_skip_of_within hgoal.1.within, renumberRow_skip_of_within hgoal.2.within]
  classes := by
    refine hc.classes.trans (Scopes.map_of_fixed fun k hk => ?_).symm
    rw [ClassConstraint.renumber, renumber_skip_of_within (h.ready.classes k hk)]
  path := hc.path
  resolved := hc.resolved.trans (ResolutionTable.renumber_of_ground h.ready.resolved).symm
  internal := by rw [hc.internal, h.internal]; rfl

def variant : Variant session.registry where
  numbers := s.skip
  ascends := s.ascends_skip
  defaults t ht := Ty.renumber_of_ground (h.supports.defaults t ht).1
  traced := session.config.trace

end Admits

def Untold (s : State) (c : Context) : Prop :=
  ∃ k : Sketch, k.Renders s.skip c

theorem Admits.untold (h : s.Admits session env) (hc : s.context.Draws c) : s.Untold c :=
  ⟨_, h.renders hc⟩

theorem Untold.run (hc : s.Untold c) (h : s.Admits session env) {α : Type} {σ : Renumbering → α → α}
    {m : Variant session.registry → InferM α} (hm : InferM.Uniform σ m) :
    (∃ a, ((m h.variant).run c).1 = σ s.skip a) ∧ s.Untold ((m h.variant).run c).2 := by
  obtain ⟨k, hc⟩ := hc
  obtain ⟨a, k', hrun⟩ := hm k
  exact ⟨⟨a, (hrun h.variant c hc).1⟩, k', (hrun h.variant c hc).2⟩

theorem Untold.apply_unknown (hc : s.Untold c) : c.apply (.ofVar s.supply.nextType) = .ofVar s.supply.nextType := by
  obtain ⟨k, hc⟩ := hc
  have hfree : c.subst.lookupType s.supply.nextType = none := by
    refine OrderedMap.find?_eq_none_iff.mpr ?_
    have hsubst : c.subst = k.context.subst.renumber s.skip := hc.unifier.subst
    rw [hsubst, Substitution.renumber, OrderedMap.keys_mapBoth, List.mem_map]
    rintro ⟨v, -, heq⟩
    exact s.skip_misses v heq
  refine Substitution.apply_of_free fun v hv hbinds => ?_
  obtain rfl := Ty.mem_vars_var.mp hv
  obtain ⟨t, ht⟩ := hbinds
  cases hfree.symm.trans ht

theorem Untold.misses (hc : s.Untold c) (t : Ty) : Var.type s.supply.nextType ∉ (c.apply (t.renumber s.skip)).vars := by
  obtain ⟨k, hc⟩ := hc
  rw [hc.apply s.ascends_skip]
  exact s.not_mem_vars_skip _

theorem Untold.errors_flush (hc : s.Untold c) (hequations : c.equations = .empty) (node : NodeId) (reason : Reason) {t : Ty}
    (ht : ∃ t' : Ty, t = t'.renumber s.skip) (hvar : t.isVar = false) :
    (c.addEquation node reason (.types t (.ofVar s.supply.nextType))).flush.errors = c.errors := by
  apply Context.errors_flush_of_solvesAll (c := c.addEquation ..)
  have hgoals : (c.addEquation node reason (.types t (.ofVar s.supply.nextType))).equations.toList.map Equation.goal =
      [.types t (.ofVar s.supply.nextType)] := by
    rw [Context.addEquation, hequations]
    rfl
  rw [hgoals]
  obtain ⟨t', rfl⟩ := ht
  refine ⟨Unifier.run_ok fun n verdict u' hsolves => ?_, trivial⟩
  exact Unifier.solves_unknown hc.apply_unknown (Substitution.isVar_apply _ hvar) (hc.misses t') hsolves

end State

end RowTyping
