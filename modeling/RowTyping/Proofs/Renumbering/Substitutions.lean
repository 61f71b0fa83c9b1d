import RowTyping.Infer.Env
import RowTyping.Proofs.Renumbering.Reading
import RowTyping.Proofs.Replacement

namespace RowTyping

variable {π : Renumbering}

namespace Ty

variable {σ σ' : TypeVarId → Option Ty} {ρ ρ' : RowVarId → Option Row}

theorem subst_renumber_both (hσ : ∀ id, σ' (π.type id) = (σ id).map (renumber π))
    (hρ : ∀ id, ρ' (π.row id) = (ρ id).map (Row.renumber π)) :
    (∀ t : Ty, (t.renumber π).subst σ' ρ' = (t.subst σ ρ).renumber π) ∧
      ∀ r : Row, substRow σ' ρ' (r.renumber π) = (substRow σ ρ r).renumber π := by
  apply Ty.induct_rows
  case var =>
    intro v
    rw [renumber_var, subst_var, subst_var, TypeVar.renumber, hσ]
    cases σ v.id <;> rfl
  case con => exact fun name => rfl
  case app =>
    intro h as hh has
    rw [renumber_app, subst_app, subst_app, renumber_app, hh, map_map_comm has]
  case list =>
    intro a ha
    rw [renumber_list, subst_list, subst_list, renumber_list, ha]
  case tuple =>
    intro as has
    rw [renumber_tuple, subst_tuple, subst_tuple, renumber_tuple, map_map_comm has]
  case fn =>
    intro ps e r hps he hr
    have heffects : (Effects.renumber π e).map (substRow σ' ρ') = Effects.renumber π (e.map (substRow σ ρ)) := by
      cases e with
      | none => rfl
      | some row => exact congrArg some (he row rfl)
    rw [renumber_fn, subst_fn, subst_fn, renumber_fn, hr, heffects, map_map_comm hps]
  case record =>
    intro r hr
    rw [renumber_record, subst_record, subst_record, renumber_record, hr]
  case row =>
    intro k fs rest hfs
    have hfields : OrderedMap.mapValues (subst σ' ρ') (OrderedMap.mapValues (renumber π) fs) =
        OrderedMap.mapValues (renumber π) (OrderedMap.mapValues (subst σ ρ) fs) :=
      map_map_comm fun f hf => congrArg (Prod.mk f.1) (hfs f hf)
    rw [Row.renumber_mk]
    cases hrest : rest.bind ρ with
    | none =>
        have hrest' : (rest.map π.row).bind ρ' = none := by
          cases rest with
          | none => rfl
          | some r => exact (hρ r).trans (congrArg _ hrest)
        rw [substRow_none_tail hrest, substRow_none_tail hrest', Row.renumber_mk, hfields]
    | some tail =>
        have hrest' : (rest.map π.row).bind ρ' = some (tail.renumber π) := by
          cases rest with
          | none => cases hrest
          | some r => exact (hρ r).trans (congrArg _ hrest)
        rw [substRow_some_tail hrest, substRow_some_tail hrest', Row.renumber_mk, hfields, OrderedMap.mapValues_merge,
          Row.renumber_fields, Row.renumber_rest]

end Ty

namespace Substitution

def renumber (π : Renumbering) (s : Substitution) : Substitution :=
  ⟨s.types.mapBoth π.type (Ty.renumber π), s.rows.mapBoth π.row (Row.renumber π)⟩

variable (s : Substitution)

theorem renumber_identity : s.renumber .identity = s := by
  have htypes : s.types.mapBoth Renumbering.identity.type (Ty.renumber .identity) = s.types :=
    (List.map_congr_left fun e _ => congrArg (e.1, ·) e.2.renumber_identity).trans (List.map_id _)
  have hrows : s.rows.mapBoth Renumbering.identity.row (Row.renumber .identity) = s.rows :=
    (List.map_congr_left fun e _ => congrArg (e.1, ·) e.2.renumber_identity).trans (List.map_id _)
  rw [renumber, htypes, hrows]

theorem depth_renumber : (s.renumber π).depth = s.depth := by
  simp [depth, renumber, OrderedMap.mapBoth]

theorem isEmpty_renumber : (s.renumber π).isEmpty = s.isEmpty := by
  rw [isEmpty, isEmpty, renumber, OrderedMap.mapBoth, OrderedMap.mapBoth, List.isEmpty_map, List.isEmpty_map]

variable (hπ : π.Ascends)

include hπ

theorem lookupType_renumber (v : TypeVarId) : (s.renumber π).lookupType (π.type v) = (s.lookupType v).map (Ty.renumber π) :=
  OrderedMap.find?_mapBoth hπ.type.injective s.types v

theorem lookupRow_renumber (v : RowVarId) : (s.renumber π).lookupRow (π.row v) = (s.lookupRow v).map (Row.renumber π) :=
  OrderedMap.find?_mapBoth hπ.row.injective s.rows v

theorem bindType_renumber (v : TypeVarId) (t : Ty) :
    (s.renumber π).bindType (π.type v) (t.renumber π) = (s.bindType v t).renumber π :=
  congrArg (Substitution.mk · _) (OrderedMap.mapBoth_insert (keepsOrder_of_strictMono hπ.type) s.types v t).symm

theorem bindRow_renumber (v : RowVarId) (r : Row) :
    (s.renumber π).bindRow (π.row v) (r.renumber π) = (s.bindRow v r).renumber π :=
  congrArg (Substitution.mk _) (OrderedMap.mapBoth_insert (keepsOrder_of_strictMono hπ.row) s.rows v r).symm

theorem chase_renumber_both (n : Nat) :
    (∀ t : Ty, (s.renumber π).chase n (t.renumber π) = (s.chase n t).renumber π) ∧
      ∀ r : Row, (s.renumber π).chaseRow n (r.renumber π) = (s.chaseRow n r).renumber π := by
  induction n with
  | zero => exact ⟨fun t => rfl, fun r => rfl⟩
  | succ n ih =>
      refine Ty.subst_renumber_both (fun id => ?_) fun id => ?_
      · rw [lookupType_renumber s hπ, Option.map_map, Option.map_map]
        exact congrFun (congrArg Option.map (funext ih.1)) _
      · rw [lookupRow_renumber s hπ, Option.map_map, Option.map_map]
        exact congrFun (congrArg Option.map (funext ih.2)) _

theorem apply_renumber (t : Ty) : (s.renumber π).apply (t.renumber π) = (s.apply t).renumber π := by
  rw [apply, apply, depth_renumber]
  exact (s.chase_renumber_both hπ _).1 t

theorem applyRow_renumber (r : Row) : (s.renumber π).applyRow (r.renumber π) = (s.applyRow r).renumber π := by
  rw [applyRow, applyRow, depth_renumber]
  exact (s.chase_renumber_both hπ _).2 r

theorem applyEffects_renumber (e : Effects) : (s.renumber π).applyEffects (e.renumber π) = (s.applyEffects e).renumber π := by
  cases e with
  | none => rfl
  | some r => exact congrArg some (s.applyRow_renumber hπ r)

end Substitution

def Predicate.renumber (π : Renumbering) (p : Predicate) : Predicate :=
  ⟨p.className, p.ty.renumber π⟩

theorem Predicate.renumber_injective (hπ : π.Ascends) : Function.Injective (renumber π) := fun p q h => by
  obtain ⟨hname, hty⟩ := Predicate.mk.inj h
  cases p
  cases q
  exact congrArg₂ Predicate.mk hname (Ty.renumber_injective hπ hty)

namespace Scheme

def renumber (π : Renumbering) (scheme : Scheme) : Scheme :=
  ⟨scheme.typeVars.map (TypeVar.renumber π), scheme.rowVars.map π.row, scheme.predicates.map (Predicate.renumber π),
    scheme.ty.renumber π⟩

theorem renumber_comp {π' : Renumbering} (scheme : Scheme) : (scheme.renumber π).renumber π' = scheme.renumber (π'.comp π) := by
  have hpredicate (p : Predicate) : (p.renumber π).renumber π' = p.renumber (π'.comp π) :=
    congrArg (Predicate.mk p.className) p.ty.renumber_comp
  simp only [renumber, List.map_map, Ty.renumber_comp, Function.comp_def, hpredicate]
  rfl

theorem renumber_of_fixed {scheme : Scheme} (h : ∀ v ∈ scheme.vars ++ scheme.quantified, v.renumber π = v) :
    scheme.renumber π = scheme := by
  rw [List.forall_mem_append, vars, quantified, List.forall_mem_append, List.forall_mem_append] at h
  obtain ⟨⟨hty, hpredicates⟩, htypeVars, hrowVars⟩ := h
  have htypeVars : scheme.typeVars.map (TypeVar.renumber π) = scheme.typeVars :=
    (List.map_congr_left fun v hv => TypeVar.renumber_of_fixed (htypeVars _ (List.mem_map_of_mem hv))).trans (List.map_id _)
  have hrowVars : scheme.rowVars.map π.row = scheme.rowVars :=
    (List.map_congr_left fun r hr => Var.row.inj (hrowVars _ (List.mem_map_of_mem hr))).trans (List.map_id _)
  have hpredicates : scheme.predicates.map (Predicate.renumber π) = scheme.predicates := by
    refine (List.map_congr_left fun p hp => ?_).trans (List.map_id _)
    rw [Predicate.renumber, Ty.renumber_of_fixed fun v hv => hpredicates v (List.mem_flatMap.mpr ⟨p, hp, hv⟩), id]
  rw [renumber, htypeVars, hrowVars, hpredicates, Ty.renumber_of_fixed hty]

theorem isMono_renumber (scheme : Scheme) : (scheme.renumber π).isMono = scheme.isMono := by
  rw [isMono, isMono, renumber, List.isEmpty_map, List.isEmpty_map]

variable (scheme : Scheme) (hπ : π.Ascends)

include hπ

theorem freeTypeVars_renumber : (scheme.renumber π).freeTypeVars = scheme.freeTypeVars.map π.type := by
  have hvars (p : Predicate) : (p.renumber π).ty.typeVars = p.ty.typeVars.map π.type := p.ty.typeVars_renumber hπ
  have hids : (scheme.typeVars.map (TypeVar.renumber π)).map TypeVar.id = (scheme.typeVars.map TypeVar.id).map π.type := by
    rw [List.map_map, List.map_map]
    rfl
  rw [freeTypeVars, freeTypeVars, renumber, scheme.ty.typeVars_renumber hπ, List.flatMap_map, List.flatMap_congr fun p _ => hvars p,
    ← List.map_flatMap, ← List.map_append, ← OrderedSet.map_ofList (keepsOrder_of_strictMono hπ.type), hids]
  exact filter_contains_map hπ.type.injective _ _

theorem freeRowVars_renumber : (scheme.renumber π).freeRowVars = scheme.freeRowVars.map π.row := by
  rw [freeRowVars, freeRowVars, renumber, scheme.ty.rowVars_renumber hπ]
  exact filter_contains_map hπ.row.injective _ _

end Scheme

namespace Substitution

variable (s : Substitution) (scheme : Scheme) (hπ : π.Ascends)

include hπ

theorem outside_renumber : (s.renumber π).outside (scheme.renumber π) = (s.outside scheme).renumber π := by
  have htypes (types : OrderedMap TypeVarId Ty) :
      (scheme.typeVars.map (TypeVar.renumber π)).foldl (fun m v => m.erase v.id) (types.mapBoth π.type (Ty.renumber π)) =
        (scheme.typeVars.foldl (fun m v => m.erase v.id) types).mapBoth π.type (Ty.renumber π) := by
    induction scheme.typeVars generalizing types with
    | nil => rfl
    | cons v vs ih =>
        rw [List.map_cons, List.foldl_cons, List.foldl_cons, ← ih, OrderedMap.mapBoth_erase hπ.type.injective]
        rfl
  have hrows (rows : OrderedMap RowVarId Row) :
      (scheme.rowVars.map π.row).foldl OrderedMap.erase (rows.mapBoth π.row (Row.renumber π)) =
        (scheme.rowVars.foldl OrderedMap.erase rows).mapBoth π.row (Row.renumber π) := by
    induction scheme.rowVars generalizing rows with
    | nil => rfl
    | cons r rs ih =>
        rw [List.map_cons, List.foldl_cons, List.foldl_cons, ← ih, OrderedMap.mapBoth_erase hπ.row.injective]
  exact congrArg₂ Substitution.mk (htypes s.types) (hrows s.rows)

theorem applyScheme_renumber : (s.renumber π).applyScheme (scheme.renumber π) = (s.applyScheme scheme).renumber π := by
  have hpredicate (p : Predicate) :
      ((s.outside scheme).renumber π).applyPredicate (p.renumber π) = ((s.outside scheme).applyPredicate p).renumber π :=
    congrArg (Predicate.mk p.className) ((s.outside scheme).apply_renumber hπ p.ty)
  rw [applyScheme, outside_renumber s scheme hπ]
  simp only [applyScheme, Scheme.renumber, apply_renumber _ hπ, List.map_map, Function.comp_def, hpredicate]

end Substitution

namespace Env

def renumber (π : Renumbering) (env : Env) : Env :=
  ⟨env.globals.mapValues (Scheme.renumber π), env.locals.map (OrderedMap.mapValues (Scheme.renumber π))⟩

theorem renumber_of_fixed {env : Env} (h : ∀ scheme ∈ env.schemes, scheme.renumber π = scheme) : env.renumber π = env := by
  have hfixed {m : OrderedMap String Scheme} (h : ∀ e ∈ m, e.2.renumber π = e.2) : m.mapValues (Scheme.renumber π) = m :=
    (OrderedMap.mapValues_congr (g := id) h).trans (List.map_id _)
  have hglobals := hfixed fun e he => h e.2 (List.mem_append_left _ (List.mem_map_of_mem he))
  have hlocals : env.locals.map (OrderedMap.mapValues (Scheme.renumber π)) = env.locals :=
    (List.map_congr_left fun m hm => hfixed fun e he =>
      h e.2 (List.mem_append_right _ (List.mem_flatMap.mpr ⟨m, hm, List.mem_map_of_mem he⟩))).trans (List.map_id _)
  rw [renumber, hglobals, hlocals]

variable (env : Env)

theorem schemes_renumber : (env.renumber π).schemes = env.schemes.map (Scheme.renumber π) := by
  simp [schemes, renumber, OrderedMap.values, OrderedMap.mapValues, List.flatMap_map, List.map_flatMap, Function.comp_def]

theorem lookupLocal_renumber (name : String) : (env.renumber π).lookupLocal name = (env.lookupLocal name).map (Scheme.renumber π) := by
  rw [lookupLocal, lookupLocal, renumber]
  induction env.locals with
  | nil => rfl
  | cons inner outer ih =>
      rw [List.map_cons, List.findSome?_cons, List.findSome?_cons, OrderedMap.find?_mapValues]
      cases inner.find? name with
      | none => exact ih
      | some scheme => rfl

theorem lookup_renumber (name : String) : (env.renumber π).lookup name = (env.lookup name).map (Scheme.renumber π) := by
  rw [lookup, lookup, lookupLocal_renumber, renumber, OrderedMap.find?_mapValues]
  cases env.lookupLocal name <;> rfl

theorem bind_renumber (name : String) (scheme : Scheme) :
    (env.renumber π).bind name (scheme.renumber π) = (env.bind name scheme).renumber π := by
  obtain ⟨globals, locals⟩ := env
  cases locals with
  | nil => exact congrArg (Env.mk · _) (OrderedMap.mapValues_insert _ globals name scheme).symm
  | cons inner outer => exact congrArg (fun m => Env.mk _ (m :: _)) (OrderedMap.mapValues_insert _ inner name scheme).symm

theorem bindAll_renumber (bindings : List (String × Scheme)) :
    (env.renumber π).bindAll (bindings.map fun b => (b.1, b.2.renumber π)) = (env.bindAll bindings).renumber π := by
  induction bindings generalizing env with
  | nil => rfl
  | cons b bs ih =>
      have h := ih (env.bind b.1 b.2)
      rw [← bind_renumber] at h
      exact h

theorem nest_renumber (bindings : List (String × Scheme)) :
    (env.renumber π).nest (bindings.map fun b => (b.1, b.2.renumber π)) = (env.nest bindings).renumber π :=
  env.pushScope.bindAll_renumber bindings

theorem nest_mono_renumber (types : List (String × Ty)) :
    (env.renumber π).nest (OrderedMap.mapValues Scheme.mono (OrderedMap.mapValues (Ty.renumber π) types)) =
      (env.nest (OrderedMap.mapValues Scheme.mono types)).renumber π := by
  rw [← nest_renumber, OrderedMap.mapValues, OrderedMap.mapValues, OrderedMap.mapValues, List.map_map, List.map_map]
  rfl

variable (s : Substitution) (hπ : π.Ascends)

include hπ

theorem freeTypeVars_renumber : (env.renumber π).freeTypeVars (s.renumber π) = (env.freeTypeVars s).map π.type := by
  have hfree (scheme : Scheme) :
      ((s.renumber π).applyScheme (scheme.renumber π)).freeTypeVars = (s.applyScheme scheme).freeTypeVars.map π.type := by
    rw [s.applyScheme_renumber scheme hπ, Scheme.freeTypeVars_renumber _ hπ]
  rw [freeTypeVars, freeTypeVars, OrderedSet.map_ofList (keepsOrder_of_strictMono hπ.type), schemes_renumber, List.flatMap_map,
    List.flatMap_congr fun scheme _ => hfree scheme, List.map_flatMap]

theorem freeRowVars_renumber : (env.renumber π).freeRowVars (s.renumber π) = (env.freeRowVars s).map π.row := by
  have hfree (scheme : Scheme) :
      ((s.renumber π).applyScheme (scheme.renumber π)).freeRowVars = (s.applyScheme scheme).freeRowVars.map π.row := by
    rw [s.applyScheme_renumber scheme hπ, Scheme.freeRowVars_renumber _ hπ]
  rw [freeRowVars, freeRowVars, OrderedSet.map_ofList (keepsOrder_of_strictMono hπ.row), schemes_renumber, List.flatMap_map,
    List.flatMap_congr fun scheme _ => hfree scheme, List.map_flatMap]

end Env

end RowTyping
