import RowTyping.Proofs.Inference.Resolving
import RowTyping.Proofs.Inference.Schemes
import RowTyping.Proofs.Patterns
import RowTyping.Proofs.Quantification

namespace RowTyping

namespace Substitution

variable {s : Substitution} {v w : Var}

def mentions (s : Substitution) : List Var :=
  s.types.flatMap (fun e => .type e.1 :: e.2.vars) ++ s.rows.flatMap fun e => .row e.1 :: e.2.vars

theorem mem_mentions : w ∈ s.mentions ↔ (∃ e ∈ s.types, w = .type e.1 ∨ w ∈ e.2.vars) ∨ ∃ e ∈ s.rows, w = .row e.1 ∨ w ∈ e.2.vars := by
  simp only [mentions, List.mem_append, List.mem_flatMap, List.mem_cons]

theorem Depends.mem_mentions (h : s.Depends v w) : w ∈ s.mentions := by
  rw [Substitution.mem_mentions]
  cases v with
  | type id =>
      obtain ⟨t, ht⟩ := h.binds
      rw [Depends, uses_type ht] at h
      exact .inl ⟨(id, t), OrderedMap.mem_of_find? ht, .inr h⟩
  | row id =>
      obtain ⟨r, hr⟩ := h.binds
      rw [Depends, uses_row hr] at h
      exact .inr ⟨(id, r), OrderedMap.mem_of_find? hr, .inr h⟩

theorem mem_mentions_bindType {id : TypeVarId} {t : Ty} (h : w ∈ (s.bindType id t).mentions) :
    w = .type id ∨ w ∈ t.vars ∨ w ∈ s.mentions := by
  rw [mem_mentions] at h ⊢
  rcases h with ⟨e, he, hw⟩ | hrow
  · rcases OrderedMap.mem_insert he with rfl | he
    · exact hw.imp_right .inl
    · exact .inr (.inr (.inl ⟨e, he, hw⟩))
  · exact .inr (.inr (.inr hrow))

theorem mem_mentions_bindRow {id : RowVarId} {r : Row} (h : w ∈ (s.bindRow id r).mentions) :
    w = .row id ∨ w ∈ r.vars ∨ w ∈ s.mentions := by
  rw [mem_mentions] at h ⊢
  rcases h with htype | ⟨e, he, hw⟩
  · exact .inr (.inr (.inl htype))
  · rcases OrderedMap.mem_insert he with rfl | he
    · exact hw.imp_right .inl
    · exact .inr (.inr (.inr ⟨e, he, hw⟩))

theorem mem_or_depends {ws : List Var} (h : ∃ v ∈ ws, Relation.ReflTransGen s.Depends v w) : w ∈ ws ∨ ∃ v, s.Depends v w := by
  obtain ⟨v, hv, hpath⟩ := h
  rcases hpath.cases_tail with rfl | ⟨u, -, huw⟩
  · exact .inl hv
  · exact .inr ⟨u, huw⟩

theorem mem_vars_or_mentions {t : Ty} (h : w ∈ (s.apply t).vars) : w ∈ t.vars ∨ w ∈ s.mentions :=
  (mem_or_depends (depends_of_apply h)).imp_right fun ⟨_, hvw⟩ => hvw.mem_mentions

theorem mem_vars_or_mentions_row {r : Row} (h : w ∈ (s.applyRow r).vars) : w ∈ r.vars ∨ w ∈ s.mentions :=
  (mem_or_depends (depends_of_applyRow h)).imp_right fun ⟨_, hvw⟩ => hvw.mem_mentions

theorem mem_vars_or_mentions_effects {e : Effects} (h : w ∈ (s.applyEffects e).toRow.vars) : w ∈ e.toRow.vars ∨ w ∈ s.mentions := by
  cases e with
  | none => exact .inl h
  | some r => exact mem_vars_or_mentions_row h

end Substitution

namespace Scheme

variable {scheme : Scheme} {s : Substitution} {w : Var}

def mentions (scheme : Scheme) : List Var :=
  scheme.vars ++ scheme.quantified

theorem mem_mentions : w ∈ scheme.mentions ↔
    w ∈ scheme.ty.vars ∨ (∃ p ∈ scheme.predicates, w ∈ p.ty.vars) ∨ w ∈ scheme.quantified := by
  simp only [mentions, vars, List.mem_append, List.mem_flatMap, or_assoc]

theorem mem_mentions_mono {t : Ty} : w ∈ (mono t).mentions ↔ w ∈ t.vars := by
  simp [mem_mentions, mono, quantified]

theorem mem_mentions_applyScheme (h : w ∈ (s.applyScheme scheme).mentions) : w ∈ scheme.mentions ∨ w ∈ s.mentions := by
  have happly {t : Ty} (hw : w ∈ ((s.outside scheme).apply t).vars) : w ∈ t.vars ∨ w ∈ s.mentions :=
    (Substitution.mem_or_depends (Substitution.depends_of_apply hw)).imp_right fun ⟨_, hvw⟩ =>
      ((s.extends_outside scheme).depends hvw).mem_mentions
  rw [mem_mentions] at h ⊢
  rcases h with h | ⟨_, hp, h⟩ | h
  · exact (happly h).imp_left .inl
  · obtain ⟨p, hmem, rfl⟩ := List.mem_map.mp hp
    exact (happly h).imp_left fun hw => .inr (.inl ⟨p, hmem, hw⟩)
  · exact .inl (.inr (.inr h))

theorem mem_mentions_generalize {t : Ty} {ps : List Predicate} {envTypeVars : List TypeVarId} {envRowVars : List RowVarId}
    (h : w ∈ (t.generalize ps envTypeVars envRowVars).mentions) : w ∈ t.vars ∨ ∃ p ∈ ps, w ∈ p.ty.vars := by
  rcases mem_mentions.mp h with h | h | h
  · exact .inl h
  · exact .inr h
  · refine .inl ?_
    cases w with
    | type v => exact Ty.mem_typeVars_iff.mp (OrderedSet.mem_diff.mp (Ty.mem_typeVars_generalize.mp (type_mem_quantified.mp h))).1
    | row r => exact Ty.mem_rowVars_iff.mp (OrderedSet.mem_diff.mp (Ty.mem_rowVars_generalize.mp (row_mem_quantified.mp h))).1

end Scheme

namespace Env

variable {env : Env} {w : Var}

def mentions (env : Env) : List Var :=
  env.schemes.flatMap Scheme.mentions

theorem mem_mentions : w ∈ env.mentions ↔ ∃ scheme ∈ env.schemes, w ∈ scheme.mentions :=
  List.mem_flatMap

theorem mentions_pushScope (env : Env) : env.pushScope.mentions = env.mentions := by
  simp [mentions, schemes, pushScope, OrderedMap.values]

theorem mem_mentions_bind {name : String} {scheme : Scheme} (h : w ∈ (env.bind name scheme).mentions) :
    w ∈ scheme.mentions ∨ w ∈ env.mentions := by
  obtain ⟨bound, hbound, hw⟩ := mem_mentions.mp h
  rcases State.mem_schemes_bind hbound with rfl | hbound
  · exact .inl hw
  · exact .inr (mem_mentions.mpr ⟨bound, hbound, hw⟩)

theorem mem_mentions_of_lookup {name : String} {scheme : Scheme} (h : env.lookup name = some scheme) (hw : w ∈ scheme.mentions) :
    w ∈ env.mentions :=
  mem_mentions.mpr ⟨scheme, State.mem_schemes_of_lookup h, hw⟩

end Env

namespace ResolutionTable

variable {t : ResolutionTable} {s : Substitution} {w : Var}

def mentions (t : ResolutionTable) : List Var :=
  t.entries.flatMap fun e => e.ty.vars

theorem mem_mentions : w ∈ t.mentions ↔ ∃ e ∈ t.entries, w ∈ e.ty.vars :=
  List.mem_flatMap

theorem mem_mentions_record {e : Resolution} (h : w ∈ (t.record e).mentions) : w ∈ e.ty.vars ∨ w ∈ t.mentions := by
  obtain ⟨e', hmem, hw⟩ := mem_mentions.mp h
  rcases mem_entries_record hmem with rfl | hmem
  · exact .inl hw
  · exact .inr (mem_mentions.mpr ⟨e', hmem, hw⟩)

theorem mem_mentions_apply (h : w ∈ (t.apply s).mentions) : w ∈ t.mentions ∨ w ∈ s.mentions := by
  obtain ⟨applied, happlied, hw⟩ := mem_mentions.mp h
  obtain ⟨_, hb, he⟩ := mem_entries.mp happlied
  obtain ⟨b, hmem, rfl⟩ := List.mem_map.mp hb
  obtain ⟨e, hentry, rfl⟩ := List.mem_map.mp he
  exact (Substitution.mem_vars_or_mentions hw).imp_left fun hw => mem_mentions.mpr ⟨e, mem_entries.mpr ⟨b, hmem, hentry⟩, hw⟩

end ResolutionTable

namespace TypedPattern

variable {p : TypedPattern} {s : Substitution} {w : Var}

def mentions (p : TypedPattern) : List Var :=
  p.nodes.flatMap fun n => n.ty.vars

theorem mem_mentions : w ∈ p.mentions ↔ ∃ n ∈ p.nodes, w ∈ n.ty.vars :=
  List.mem_flatMap

theorem mem_mentions_ty (h : w ∈ p.ty.vars) : w ∈ p.mentions :=
  mem_mentions.mpr ⟨p, p.mem_nodes_self, h⟩

theorem mem_mentions_of_leaf (h : p.nodes = [p]) : w ∈ p.mentions ↔ w ∈ p.ty.vars := by
  simp [mentions, h]

variable {id : NodeId} {t : Ty}

theorem mem_mentions_tuple {ps : List TypedPattern} : w ∈ (tuple id t ps).mentions ↔ w ∈ t.vars ∨ ∃ p ∈ ps, w ∈ p.mentions := by
  simp [mentions, nodes, ty, nodesAll_eq, List.flatMap_assoc]

theorem mem_mentions_list {ps : List TypedPattern} {rest : Option TypedPattern} :
    w ∈ (list id t ps rest).mentions ↔ w ∈ t.vars ∨ (∃ p ∈ ps, w ∈ p.mentions) ∨ ∃ p ∈ rest, w ∈ p.mentions := by
  cases rest <;> simp [mentions, nodes, ty, nodesAll_eq, nodesRest, List.flatMap_assoc]

theorem mem_mentions_record {fs : List (String × TypedPattern)} {isOpen : Bool} :
    w ∈ (record id t fs isOpen).mentions ↔ w ∈ t.vars ∨ ∃ f ∈ fs, w ∈ f.2.mentions := by
  simp [mentions, nodes, ty, nodesFields_eq, List.flatMap_assoc]

end TypedPattern

namespace TypedExpr

variable {e : TypedExpr} {s : Substitution} {w : Var}

def own (e : TypedExpr) : List Var :=
  e.ty.vars ++ e.effects.toRow.vars ++ e.annotations.flatMap Ty.vars ++ e.patterns.flatMap (fun p => p.ty.vars) ++
    e.group.flatMap fun b => b.scheme.mentions

def mentions (e : TypedExpr) : List Var :=
  e.nodes.flatMap own

theorem mem_own : w ∈ e.own ↔ w ∈ e.ty.vars ∨ w ∈ e.effects.toRow.vars ∨ (∃ t ∈ e.annotations, w ∈ t.vars) ∨
    (∃ p ∈ e.patterns, w ∈ p.ty.vars) ∨ ∃ b ∈ e.group, w ∈ b.scheme.mentions := by
  simp only [own, List.mem_append, List.mem_flatMap, or_assoc]

theorem mem_mentions : w ∈ e.mentions ↔ w ∈ e.own ∨ ∃ child ∈ e.children, w ∈ child.mentions := by
  simp only [mentions, nodes_eq e, List.flatMap_cons, List.mem_append, List.mem_flatMap]
  constructor
  · rintro (h | ⟨n, ⟨child, hchild, hn⟩, hw⟩)
    · exact .inl h
    · exact .inr ⟨child, hchild, n, hn, hw⟩
  · rintro (h | ⟨child, hchild, n, hn, hw⟩)
    · exact .inl h
    · exact .inr ⟨n, ⟨child, hchild, hn⟩, hw⟩

theorem mem_mentions_ty (h : w ∈ e.ty.vars) : w ∈ e.mentions :=
  mem_mentions.mpr (.inl (mem_own.mpr (.inl h)))

theorem mem_mentions_effects (h : w ∈ e.effects.toRow.vars) : w ∈ e.mentions :=
  mem_mentions.mpr (.inl (mem_own.mpr (.inr (.inl h))))

theorem mem_own_applyExpr (h : w ∈ (s.applyExpr e).own) : w ∈ e.own ∨ w ∈ s.mentions := by
  rw [mem_own, Substitution.ty_applyExpr, TypedExpr.effects, Substitution.info_applyExpr, Substitution.annotations_applyExpr,
    Substitution.patterns_applyExpr, Substitution.group_applyExpr] at h
  rw [mem_own]
  rcases h with h | h | ⟨_, ht, h⟩ | ⟨_, hp, h⟩ | ⟨_, hb, h⟩
  · exact (Substitution.mem_vars_or_mentions h).imp_left .inl
  · exact (Substitution.mem_vars_or_mentions_effects h).imp_left fun h => .inr (.inl h)
  · obtain ⟨t, hmem, rfl⟩ := List.mem_map.mp ht
    exact (Substitution.mem_vars_or_mentions h).imp_left fun h => .inr (.inr (.inl ⟨t, hmem, h⟩))
  · obtain ⟨p, hmem, rfl⟩ := List.mem_map.mp hp
    rw [Substitution.ty_applyPattern] at h
    exact (Substitution.mem_vars_or_mentions h).imp_left fun h => .inr (.inr (.inr (.inl ⟨p, hmem, h⟩)))
  · obtain ⟨b, hmem, rfl⟩ := List.mem_map.mp hb
    exact (Scheme.mem_mentions_applyScheme h).imp_left fun h => .inr (.inr (.inr (.inr ⟨b, hmem, h⟩)))

theorem mem_mentions_applyExpr (h : w ∈ (s.applyExpr e).mentions) : w ∈ e.mentions ∨ w ∈ s.mentions := by
  rw [mentions, Substitution.nodes_applyExpr, List.flatMap_map] at h
  obtain ⟨n, hn, h⟩ := List.mem_flatMap.mp h
  exact (mem_own_applyExpr h).imp_left fun h => List.mem_flatMap.mpr ⟨n, hn, h⟩

end TypedExpr

end RowTyping
