import RowTyping.Proofs.Renumbering.Substitutions
import RowTyping.Proofs.Unification.Run

namespace RowTyping

open TryM

variable {π : Renumbering}

def Goal.renumber (π : Renumbering) : Goal → Goal
  | .types e a => .types (e.renumber π) (a.renumber π)
  | .rows e a => .rows (e.renumber π) (a.renumber π)

def UnifyError.renumber (π : Renumbering) : UnifyError → UnifyError
  | .mismatch e a => .mismatch (e.renumber π) (a.renumber π)
  | .kind e a => .kind e a
  | .occurs v t => .occurs (v.renumber π) (t.renumber π)
  | .rowOccurs v r => .rowOccurs (π.row v) (r.renumber π)
  | .arity e a => .arity e a
  | .tupleArity e a => .tupleArity e a
  | .rows k missing extra => .rows k missing extra
  | .field l source => .field l (source.renumber π)
  | .representation e a => .representation (e.renumber π) (a.renumber π)
  | .circular => .circular

def Meeting.renumber (π : Renumbering) : Meeting → Meeting
  | .bind v t => .bind (v.renumber π) (t.renumber π)
  | .parts part goals => .parts part (goals.map (Goal.renumber π))
  | .rows e a => .rows (e.renumber π) (a.renumber π)
  | .clash failure error => .clash failure (error.renumber π)

theorem Goal.pairs_renumber (es as : List Ty) :
    pairs (es.map (Ty.renumber π)) (as.map (Ty.renumber π)) = (pairs es as).map (renumber π) := by
  rw [pairs, pairs, List.zip_map, List.map_map, List.map_map]
  rfl

theorem Goal.depth_renumber (g : Goal) : (g.renumber π).depth = g.depth := by
  cases g <;> simp [depth, height, occurrences, renumber, Ty.height_renumber, Row.height_renumber, Ty.occurrences_renumber,
    Row.occurrences_renumber]

namespace Ty

theorem clash_renumber (e a : Ty) : clash (e.renumber π) (a.renumber π) = (clash e a).renumber π := rfl

theorem clashRecords_renumber (positional e a : Ty) :
    clashRecords (positional.renumber π) (e.renumber π) (a.renumber π) = (clashRecords positional e a).renumber π := by
  rw [clashRecords, clashRecords, positionalLabels?_renumber]
  split <;> rfl

theorem meet_renumber (e a : Ty) : (e.renumber π).meet (a.renumber π) = (e.meet a).renumber π := by
  cases e with
  | var v => rfl
  | con name => cases a <;> simp [meet, clash, Meeting.renumber, UnifyError.renumber]
  | app h es =>
      cases a with
      | app h' as =>
          simp only [renumber_app, meet, List.length_map]
          split
          · exact congrArg (Meeting.parts _ <| Goal.types _ _ :: ·) (Goal.pairs_renumber es as)
          · rw [← renumber_app, ← renumber_app, clash_renumber]
      | record r => exact clashRecords_renumber (.app h es) (.app h es) (.record r)
      | _ => simp [meet, clash, Meeting.renumber, UnifyError.renumber]
  | list e => cases a <;> simp [meet, clash, Meeting.renumber, Goal.renumber, UnifyError.renumber]
  | tuple es =>
      cases a with
      | tuple as =>
          simp only [renumber_tuple, meet, List.length_map]
          split
          · exact congrArg (Meeting.parts _) (Goal.pairs_renumber es as)
          · rfl
      | _ => simp [meet, clash, Meeting.renumber, UnifyError.renumber]
  | fn ps e r =>
      cases a with
      | fn ps' e' r' =>
          simp only [renumber_fn, meet, List.length_map]
          split
          · simp only [Meeting.renumber, Goal.pairs_renumber, List.map_append, List.map_cons, List.map_nil, Goal.renumber,
              Effects.toRow_renumber]
          · rfl
      | _ => simp [meet, clash, Meeting.renumber, UnifyError.renumber]
  | record r =>
      cases a with
      | app h as => exact clashRecords_renumber (.app h as) (.record r) (.app h as)
      | _ => simp [meet, clash, Meeting.renumber, UnifyError.renumber]

end Ty

structure Supply.Renders (π : Renumbering) (s s' : Supply) : Prop where
  type : ∀ k, s'.nextType + k = π.type (s.nextType + k)
  row : ∀ k, s'.nextRow + k = π.row (s.nextRow + k)

namespace Supply.Renders

variable {s s' : Supply} (h : s.Renders π s')

include h

theorem nextType : s'.nextType = π.type s.nextType :=
  h.type 0

theorem nextRow : s'.nextRow = π.row s.nextRow :=
  h.row 0

theorem freshType : s.freshType.2.Renders π s'.freshType.2 := by
  refine ⟨fun k => ?_, h.row⟩
  have := h.type (1 + k)
  rwa [← Nat.add_assoc, ← Nat.add_assoc] at this

theorem freshRow : s.freshRow.2.Renders π s'.freshRow.2 := by
  refine ⟨h.type, fun k => ?_⟩
  have := h.row (1 + k)
  rwa [← Nat.add_assoc, ← Nat.add_assoc] at this

end Supply.Renders

structure Unifier.Renders (π : Renumbering) (u u' : Unifier) : Prop where
  subst : u'.subst = u.subst.renumber π
  supply : u.supply.Renders π u'.supply

namespace UnifyM

def Parallel (π : Renumbering) (m m' : UnifyM Unit) : Prop :=
  ∀ u u', u.Renders π u' → (m' u').1 = (m u).1.mapError (UnifyError.renumber π) ∧ (m u).2.Renders π (m' u').2

theorem parallel_pure : Parallel π (pure ()) (pure ()) :=
  fun _ _ h => ⟨rfl, h⟩

theorem parallel_throw (e : UnifyError) : Parallel π (throw e) (throw (e.renumber π)) :=
  fun _ _ h => ⟨rfl, h⟩

theorem parallel_note (action action' : Action) (left left' right right' : Ty) :
    Parallel π (Unifier.note action left right) (Unifier.note action' left' right') :=
  fun _ _ h => ⟨rfl, h.subst, h.supply⟩

variable {m m' : UnifyM Unit}

theorem Parallel.bind (hm : Parallel π m m') {f f' : Unit → UnifyM Unit} (hf : Parallel π (f ()) (f' ())) :
    Parallel π (m >>= f) (m' >>= f') := by
  intro u u' h
  have hrun := hm u u' h
  rw [exec_bind, exec_bind]
  generalize m u = x at hrun ⊢
  generalize m' u' = x' at hrun ⊢
  obtain ⟨answer, u₁⟩ := x
  obtain ⟨answer', u₁'⟩ := x'
  obtain ⟨rfl, hu₁⟩ := hrun
  cases answer with
  | error e => exact ⟨rfl, hu₁⟩
  | ok a => exact hf u₁ u₁' hu₁

theorem parallel_throw_bind (e : UnifyError) (f f' : Unit → UnifyM Unit) :
    Parallel π (throw e >>= f) (throw (e.renumber π) >>= f') := by
  intro u u' h
  rw [exec_bind, exec_bind, exec_throw, exec_throw]
  exact ⟨rfl, h⟩

theorem parallel_ite {p p' : Prop} [Decidable p] [Decidable p'] (hp : p' ↔ p) {n n' : UnifyM Unit} (hm : p → Parallel π m m')
    (hn : ¬ p → Parallel π n n') : Parallel π (if p then m else n) (if p' then m' else n') := by
  by_cases h : p
  · rw [if_pos h, if_pos (hp.mpr h)]
    exact hm h
  · rw [if_neg h, if_neg (mt hp.mp h)]
    exact hn h

theorem parallel_get {f f' : Unifier → UnifyM Unit} (hf : ∀ u u', u.Renders π u' → Parallel π (f u) (f' u')) :
    Parallel π (get >>= f) (get >>= f') := by
  intro u u' h
  rw [exec_bind, exec_bind, exec_get, exec_get]
  exact hf u u' h u u' h

theorem parallel_modify {g g' : Unifier → Unifier} (hg : ∀ u u', u.Renders π u' → (g u).Renders π (g' u')) :
    Parallel π (modify g) (modify g') :=
  fun u u' h => ⟨rfl, hg u u' h⟩

theorem parallel_freshRow {f f' : RowVarId → UnifyM Unit} (hf : ∀ r, Parallel π (f r) (f' (π.row r))) :
    Parallel π (Unifier.freshRow >>= f) (Unifier.freshRow >>= f') := by
  intro u u' h
  rw [exec_bind, exec_bind, run_freshRow, run_freshRow, h.supply.nextRow]
  exact hf _ _ _ ⟨h.subst, h.supply.freshRow⟩

theorem parallel_forM {α β : Type} {f : α → UnifyM Unit} {f' : β → UnifyM Unit} {g : α → β} {as : List α}
    (h : ∀ a ∈ as, Parallel π (f a) (f' (g a))) : Parallel π (as.forM f) ((as.map g).forM f') := by
  induction as with
  | nil => exact parallel_pure
  | cons a as ih =>
      exact (h a List.mem_cons_self).bind (ih fun a' ha' => h a' (List.mem_cons_of_mem a ha'))

theorem parallel_inField (l : Label) (hm : Parallel π m m') : Parallel π (Unifier.inField l m) (Unifier.inField l m') := by
  intro u u' h
  have hrun := hm u u' h
  rw [run_inField, run_inField]
  generalize m u = x at hrun ⊢
  generalize m' u' = x' at hrun ⊢
  obtain ⟨answer, u₁⟩ := x
  obtain ⟨answer', u₁'⟩ := x'
  obtain ⟨rfl, hu₁⟩ := hrun
  cases answer with
  | error e => exact ⟨rfl, hu₁⟩
  | ok a => exact ⟨rfl, hu₁⟩

end UnifyM

namespace Unifier

open UnifyM

variable (hπ : π.Ascends)

theorem parallel_failLabels (shown : Row) (missing extra : List Label) :
    Parallel π (failLabels shown missing extra) (failLabels (shown.renumber π) missing extra) := by
  refine (parallel_note _ _ _ _ _ _).bind ?_
  rw [Row.renumber_kind]
  exact parallel_throw (.rows shown.kind missing extra)

theorem parallel_requireSameLabels (shown : Row) (missing extra : List Label) :
    Parallel π (requireSameLabels shown missing extra) (requireSameLabels (shown.renumber π) missing extra) :=
  parallel_ite Iff.rfl (fun _ => parallel_pure) fun _ => parallel_failLabels shown missing extra

include hπ

theorem parallel_bindTypeVar (v : TypeVar) (t : Ty) : Parallel π (bindTypeVar v t) (bindTypeVar (v.renumber π) (t.renumber π)) := by
  have hsame : t.renumber π = .var (v.renumber π) ↔ t = .var v := (Ty.renumber_injective hπ).eq_iff (b := .var v)
  have hoccurs : ((t.renumber π).typeVars.contains (v.renumber π).id && !(t.renumber π).isVar) =
      (t.typeVars.contains v.id && !t.isVar) := by
    rw [t.typeVars_renumber hπ, Ty.isVar_renumber]
    exact congrArg (· && !t.isVar) (contains_map_of_injective hπ.type.injective _ _)
  have hkind : (t.renumber π).kind = t.kind := t.kind_renumber
  refine parallel_ite hsame (fun _ => parallel_pure) fun _ => ?_
  refine parallel_ite (by rw [hoccurs]) (fun _ => ?_) fun _ => ?_
  · exact (parallel_note _ _ _ _ _ _).bind (parallel_throw_bind (.occurs v t) _ _)
  rw [hkind]
  refine parallel_ite Iff.rfl (fun _ => ?_) fun _ => ?_
  · exact (parallel_note _ _ _ _ _ _).bind (parallel_throw_bind (.kind v.kind t.kind) _ _)
  · refine (parallel_note _ _ _ _ _ _).bind (parallel_modify fun u u' h => ⟨?_, h.supply⟩)
    change u'.subst.bindType (π.type v.id) (t.renumber π) = (u.subst.bindType v.id t).renumber π
    rw [h.subst, u.subst.bindType_renumber hπ]

theorem parallel_bindTail (v : RowVarId) (r : Row) : Parallel π (bindTail v r) (bindTail (π.row v) (r.renumber π)) := by
  have hsame : (r.renumber π).rest = some (π.row v) ∧ (r.renumber π).isEmpty = true ↔ r.rest = some v ∧ r.isEmpty = true := by
    rw [Row.renumber_rest, Row.isEmpty_renumber, ← Option.map_some, (Option.map_injective hπ.row.injective).eq_iff]
  have hoccurs : (r.renumber π).rowVars.contains (π.row v) = r.rowVars.contains v := by
    rw [r.rowVars_renumber hπ]
    exact contains_map_of_injective hπ.row.injective _ _
  refine parallel_ite hsame (fun _ => parallel_pure) fun _ => ?_
  refine parallel_ite (by rw [hoccurs]) (fun _ => ?_) fun _ => ?_
  · exact (parallel_note _ _ _ _ _ _).bind (parallel_throw_bind (.rowOccurs v r) _ _)
  · refine (parallel_note _ _ _ _ _ _).bind (parallel_modify fun u u' h => ⟨?_, h.supply⟩)
    change u'.subst.bindRow (π.row v) (r.renumber π) = (u.subst.bindRow v r).renumber π
    rw [h.subst, u.subst.bindRow_renumber hπ]

theorem parallel_unifyTails (e a : Row) : Parallel π (unifyTails e a) (unifyTails (e.renumber π) (a.renumber π)) := by
  have honly (r r' : Row) : (r.renumber π).only (r'.renumber π) = OrderedMap.mapValues (Ty.renumber π) (r.only r') :=
    r.only_renumber r'
  have hbind (v : RowVarId) (k : Kind) (r r' : Row) (rest : Option RowVarId) :
      Parallel π (bindTail v ⟨k, r.only r', rest⟩)
        (bindTail (π.row v) ⟨k, OrderedMap.mapValues (Ty.renumber π) (r.only r'), rest.map π.row⟩) := by
    rw [← Row.renumber_mk]
    exact parallel_bindTail hπ v _
  have hempty (r r' : Row) : (OrderedMap.mapValues (Ty.renumber π) (r.only r')).isEmpty = (r.only r').isEmpty := List.isEmpty_map
  simp only [unifyTails, Row.renumber_rest, Row.renumber_kind, honly, OrderedMap.keys_mapValues, hempty]
  cases e.rest with
  | none =>
      cases a.rest with
      | none => exact parallel_requireSameLabels e _ _
      | some r =>
          refine parallel_ite Iff.rfl (fun _ => hbind r a.kind e a none) fun _ => ?_
          exact parallel_failLabels e [] _
  | some r =>
      cases a.rest with
      | none =>
          refine parallel_ite Iff.rfl (fun _ => hbind r e.kind a e none) fun _ => ?_
          exact parallel_failLabels e _ []
      | some r' =>
          refine parallel_ite hπ.row.injective.eq_iff (fun _ => parallel_requireSameLabels e _ _) fun _ => ?_
          refine parallel_ite Iff.rfl (fun _ => parallel_bindTail hπ r ⟨e.kind, [], some r'⟩) fun _ => ?_
          refine parallel_freshRow fun shared => (parallel_note _ _ _ _ _ _).bind ?_
          exact (hbind r e.kind a e (some shared)).bind (hbind r' a.kind e a (some shared))

theorem isBound_renumber {u u' : Unifier} (h : u.Renders π u') (tail : Option RowVarId) :
    u'.isBound (tail.map π.row) = u.isBound tail := by
  cases tail with
  | none => rfl
  | some r =>
      change (u'.subst.lookupRow (π.row r)).isSome = (u.subst.lookupRow r).isSome
      rw [h.subst, u.subst.lookupRow_renumber hπ, Option.isSome_map]

theorem parallel_solve (n : Nat) (g : Goal) : Parallel π (solve n g) (solve n (g.renumber π)) := by
  induction n generalizing g with
  | zero => exact parallel_throw .circular
  | succ n ih =>
      cases g with
      | types e a =>
          refine parallel_get fun u u' h => ?_
          have happly (t : Ty) : u'.subst.apply (t.renumber π) = (u.subst.apply t).renumber π := by
            rw [h.subst, u.subst.apply_renumber hπ]
          simp only [happly, Ty.meet_renumber]
          refine parallel_ite (Ty.renumber_injective hπ).eq_iff (fun _ => parallel_note _ _ _ _ _ _) fun _ => ?_
          cases (u.subst.apply e).meet (u.subst.apply a) with
          | bind v t => exact parallel_bindTypeVar hπ v t
          | parts part goals => exact (parallel_note _ _ _ _ _ _).bind (parallel_forM fun g _ => ih g)
          | rows r r' => exact ih (.rows r r')
          | clash failure error => exact (parallel_note _ _ _ _ _ _).bind (parallel_throw error)
      | rows e a =>
          refine parallel_ite (by rw [Row.renumber_kind, Row.renumber_kind]) (fun _ => ?_) fun _ => ?_
          · rw [Row.renumber_kind, Row.renumber_kind]
            exact (parallel_note _ _ _ _ _ _).bind (parallel_throw_bind (.kind e.kind a.kind) _ _)
          refine parallel_get fun u u' h => ?_
          have happly (r : Row) : u'.subst.applyRow (r.renumber π) = (u.subst.applyRow r).renumber π := by
            rw [h.subst, u.subst.applyRow_renumber hπ]
          simp only [happly, Row.common_renumber]
          generalize u.subst.applyRow e = e
          generalize u.subst.applyRow a = a
          refine parallel_ite (Row.renumber_injective hπ).eq_iff (fun _ => parallel_pure) fun _ => ?_
          refine (parallel_note _ _ _ _ _ _).bind (Parallel.bind ?_ (parallel_get fun u u' h => ?_))
          · exact parallel_forM fun c _ => parallel_inField c.1 (ih (.types c.2.1 c.2.2))
          have hbound : (u'.isBound (e.renumber π).rest || u'.isBound (a.renumber π).rest) = (u.isBound e.rest || u.isBound a.rest) := by
            rw [Row.renumber_rest, Row.renumber_rest, isBound_renumber hπ h, isBound_renumber hπ h]
          refine parallel_ite (by rw [hbound]) (fun _ => ?_) fun _ => parallel_unifyTails hπ e a
          have hrest := ih (.rows ⟨e.kind, e.only a, e.rest⟩ ⟨a.kind, a.only e, a.rest⟩)
          rw [Goal.renumber, Row.renumber_mk, Row.renumber_mk, ← Row.only_renumber, ← Row.only_renumber] at hrest
          simpa only [Row.renumber_kind, Row.renumber_rest] using hrest

theorem applyGoal_renumber {u u' : Unifier} (h : u.Renders π u') (g : Goal) : u'.applyGoal (g.renumber π) = (u.applyGoal g).renumber π := by
  cases g with
  | types e a =>
      rw [Goal.renumber, applyGoal, h.subst, u.subst.apply_renumber hπ, u.subst.apply_renumber hπ]
      rfl
  | rows e a =>
      rw [Goal.renumber, applyGoal, h.subst, u.subst.applyRow_renumber hπ, u.subst.applyRow_renumber hπ]
      rfl

theorem parallel_attempt (g : Goal) : Parallel π (attempt g) (attempt (g.renumber π)) := by
  refine parallel_get fun u u' h => ?_
  rw [applyGoal_renumber hπ h, Goal.depth_renumber]
  exact parallel_solve hπ _ g

omit hπ in
theorem run_enableTracing (u : Unifier) (g : Goal) :
    (run g u.enableTracing).2.subst = (run g u).2.subst ∧ (run g u.enableTracing).2.supply = (run g u).2.supply := by
  have hsame : Unifier.Renders .identity u u.enableTracing :=
    ⟨u.subst.renumber_identity.symm, fun _ => rfl, fun _ => rfl⟩
  have hgoal : g.renumber .identity = g := by
    cases g with
    | types e a => rw [Goal.renumber, e.renumber_identity, a.renumber_identity]
    | rows e a => rw [Goal.renumber, e.renumber_identity, a.renumber_identity]
  have hrun := parallel_attempt Renumbering.ascends_identity g u u.enableTracing hsame
  rw [hgoal] at hrun
  exact ⟨hrun.2.subst.trans (Substitution.renumber_identity _), congrArg₂ Supply.mk hrun.2.supply.nextType hrun.2.supply.nextRow⟩

end Unifier

end RowTyping
