import RowTyping.Proofs.Variables
import RowTyping.Unify.Solver

namespace RowTyping

open TryM

inductive Verdict where
  | solved
  | refused
  | exhausted
  deriving DecidableEq, Repr

def UnifyError.isCircular : UnifyError → Bool
  | .circular => true
  | .field _ source => source.isCircular
  | _ => false

def Verdict.ofAnswer : Except UnifyError Unit → Verdict
  | .ok () => .solved
  | .error e => if e.isCircular then .exhausted else .refused

theorem Verdict.ofAnswer_eq_solved {answer : Except UnifyError Unit} :
    Verdict.ofAnswer answer = .solved ↔ answer = .ok () := by
  cases answer with
  | ok x => simp [ofAnswer]
  | error e =>
      simp only [ofAnswer, reduceCtorEq, iff_false]
      split <;> simp

def Action.binds : Action → Bool
  | .bind _ _ => true
  | .bindTail _ _ => true
  | _ => false

namespace Unifier

def record (u : Unifier) (action : Action) (left right : Ty) : Unifier :=
  { u with steps := if u.tracing then ⟨action, left, right⟩ :: u.steps else u.steps }

def bindType (u : Unifier) (v : TypeVarId) (t : Ty) : Unifier :=
  { u with subst := u.subst.bindType v t }

def bindRow (u : Unifier) (r : RowVarId) (row : Row) : Unifier :=
  { u with subst := u.subst.bindRow r row }

def skipRow (u : Unifier) : Unifier :=
  { u with supply := u.supply.freshRow.2 }

variable (u : Unifier)

@[simp]
theorem record_subst (action : Action) (left right : Ty) : (u.record action left right).subst = u.subst := rfl

@[simp]
theorem bindType_subst (v : TypeVarId) (t : Ty) : (u.bindType v t).subst = u.subst.bindType v t := rfl

@[simp]
theorem bindRow_subst (r : RowVarId) (row : Row) : (u.bindRow r row).subst = u.subst.bindRow r row := rfl

@[simp]
theorem skipRow_subst : u.skipRow.subst = u.subst := rfl

end Unifier

section Steps

open Unifier

variable (u : Unifier)

theorem run_note (action : Action) (left right : Ty) :
    note action left right u = (.ok (), u.record action left right) := rfl

theorem run_freshRow : freshRow u = (.ok u.supply.nextRow, u.skipRow) := rfl

theorem run_inField (l : Label) (m : UnifyM Unit) :
    inField l m u = match m u with
      | (.ok (), u') => (.ok (), u')
      | (.error e, u') => (.error (.field l e), u') := by
  rw [inField, exec_tryCatch]
  rcases m u with ⟨_ | _, _⟩ <;> rfl

end Steps

namespace Unifier

inductive BindsType (u : Unifier) (v : TypeVar) (t : Ty) : Verdict → Unifier → Prop
  | same : t = .var v → BindsType u v t .solved u
  | refused (action : Action) : action.binds = false → t ≠ .var v → (Var.type v.id ∈ t.vars ∧ t.isVar = false) ∨ v.kind ≠ t.kind →
      BindsType u v t .refused (u.record action (.var v) t)
  | bound : t ≠ .var v → Var.type v.id ∉ t.vars → v.kind = t.kind →
      BindsType u v t .solved ((u.record (.bind v.id t) (.var v) t).bindType v.id t)

inductive BindsTail (u : Unifier) (r : RowVarId) (row : Row) : Verdict → Unifier → Prop
  | same : row.rest = some r → row.fields = [] → BindsTail u r row .solved u
  | refused : ¬ (row.rest = some r ∧ row.fields = []) → Var.row r ∈ row.vars →
      BindsTail u r row .refused (u.record (.tailOccurs r) (.record row) (.record row))
  | bound : Var.row r ∉ row.vars →
      BindsTail u r row .solved ((u.record (.bindTail r row) (.record row) (.record row)).bindRow r row)

inductive SettlesTails (u : Unifier) (e a : Row) : Verdict → Unifier → Prop
  | agree : e.rest = a.rest → e.only a = [] → a.only e = [] → SettlesTails u e a .solved u
  | labels (missing extra : List Label) :
      (e.rest = a.rest ∧ ¬ (e.only a = [] ∧ a.only e = [])) ∨ (a.rest = none ∧ e.only a ≠ []) ∨
        (e.rest = none ∧ a.only e ≠ []) →
      SettlesTails u e a .refused (u.record (.fail (.labels missing extra)) (.record e) (.record e))
  | expected (r : RowVarId) (verdict : Verdict) (u' : Unifier) : e.rest = some r → a.rest = none → e.only a = [] →
      BindsTail u r ⟨e.kind, a.only e, none⟩ verdict u' → SettlesTails u e a verdict u'
  | actual (r : RowVarId) (verdict : Verdict) (u' : Unifier) : e.rest = none → a.rest = some r → a.only e = [] →
      BindsTail u r ⟨a.kind, e.only a, none⟩ verdict u' → SettlesTails u e a verdict u'
  | join (r r' : RowVarId) (verdict : Verdict) (u' : Unifier) : e.rest = some r → a.rest = some r' → r ≠ r' →
      e.only a = [] → a.only e = [] → BindsTail u r ⟨e.kind, [], some r'⟩ verdict u' → SettlesTails u e a verdict u'
  | shareRefused (r r' : RowVarId) (verdict : Verdict) (u' : Unifier) : e.rest = some r → a.rest = some r' → r ≠ r' →
      ¬ (e.only a = [] ∧ a.only e = []) →
      BindsTail (u.skipRow.record (.shareTail r r' u.supply.nextRow) (.record e) (.record a)) r
        ⟨e.kind, a.only e, some u.supply.nextRow⟩ verdict u' → verdict ≠ .solved → SettlesTails u e a verdict u'
  | share (r r' : RowVarId) (verdict : Verdict) (u₁ u' : Unifier) : e.rest = some r → a.rest = some r' → r ≠ r' →
      ¬ (e.only a = [] ∧ a.only e = []) →
      BindsTail (u.skipRow.record (.shareTail r r' u.supply.nextRow) (.record e) (.record a)) r
        ⟨e.kind, a.only e, some u.supply.nextRow⟩ .solved u₁ →
      BindsTail u₁ r' ⟨a.kind, e.only a, some u.supply.nextRow⟩ verdict u' → SettlesTails u e a verdict u'

end Unifier

namespace Row

def commonGoals (e a : Row) : List Goal :=
  (e.common a).map fun c => .types c.2.1 c.2.2

def residual (e a : Row) : Row :=
  { e with fields := e.only a }

end Row

namespace Unifier

inductive Solves : Nat → Unifier → List Goal → Verdict → Unifier → Prop
  | nil {n : Nat} {u : Unifier} : Solves n u [] .solved u
  | cons {n : Nat} {u u₁ u' : Unifier} {g g' : Goal} {gs : List Goal} {verdict : Verdict} :
      Solves n u [g] .solved u₁ → Solves n u₁ (g' :: gs) verdict u' → Solves n u (g :: g' :: gs) verdict u'
  | stop {n : Nat} {u u' : Unifier} {g g' : Goal} {gs : List Goal} {verdict : Verdict} :
      Solves n u [g] verdict u' → verdict ≠ .solved → Solves n u (g :: g' :: gs) verdict u'
  | exhausted {u : Unifier} {g : Goal} : Solves 0 u [g] .exhausted u
  | identical {n : Nat} {u : Unifier} {e a : Ty} : u.subst.apply e = u.subst.apply a →
      Solves (n + 1) u [.types e a] .solved (u.record .identity (u.subst.apply e) (u.subst.apply a))
  | bind {n : Nat} {u u' : Unifier} {e a t : Ty} {v : TypeVar} {verdict : Verdict} :
      u.subst.apply e ≠ u.subst.apply a → (u.subst.apply e).meet (u.subst.apply a) = .bind v t →
      BindsType u v t verdict u' → Solves (n + 1) u [.types e a] verdict u'
  | parts {n : Nat} {u u' : Unifier} {e a : Ty} {part : Part} {gs : List Goal} {verdict : Verdict} :
      u.subst.apply e ≠ u.subst.apply a → (u.subst.apply e).meet (u.subst.apply a) = .parts part gs →
      Solves n (u.record (.decompose part) (u.subst.apply e) (u.subst.apply a)) gs verdict u' →
      Solves (n + 1) u [.types e a] verdict u'
  | rows {n : Nat} {u u' : Unifier} {e a : Ty} {r r' : Row} {verdict : Verdict} :
      u.subst.apply e ≠ u.subst.apply a → (u.subst.apply e).meet (u.subst.apply a) = .rows r r' →
      Solves n u [.rows r r'] verdict u' → Solves (n + 1) u [.types e a] verdict u'
  | clash {n : Nat} {u : Unifier} {e a : Ty} {failure : Failure} {error : UnifyError} :
      u.subst.apply e ≠ u.subst.apply a → (u.subst.apply e).meet (u.subst.apply a) = .clash failure error →
      Solves (n + 1) u [.types e a] .refused (u.record (.fail failure) (u.subst.apply e) (u.subst.apply a))
  | kinds {n : Nat} {u : Unifier} {e a : Row} : e.kind ≠ a.kind →
      Solves (n + 1) u [.rows e a] .refused (u.record (.rowKinds e.kind a.kind) (.record e) (.record a))
  | equal {n : Nat} {u : Unifier} {e a : Row} : e.kind = a.kind → u.subst.applyRow e = u.subst.applyRow a →
      Solves (n + 1) u [.rows e a] .solved u
  | fields {n : Nat} {u u' : Unifier} {e a : Row} {verdict : Verdict} : e.kind = a.kind →
      u.subst.applyRow e ≠ u.subst.applyRow a →
      Solves n (u.record .enterRows (.record (u.subst.applyRow e)) (.record (u.subst.applyRow a)))
        ((u.subst.applyRow e).commonGoals (u.subst.applyRow a)) verdict u' →
      verdict ≠ .solved → Solves (n + 1) u [.rows e a] verdict u'
  | restart {n : Nat} {u u₁ u' : Unifier} {e a : Row} {verdict : Verdict} : e.kind = a.kind →
      u.subst.applyRow e ≠ u.subst.applyRow a →
      Solves n (u.record .enterRows (.record (u.subst.applyRow e)) (.record (u.subst.applyRow a)))
        ((u.subst.applyRow e).commonGoals (u.subst.applyRow a)) .solved u₁ →
      (u₁.isBound (u.subst.applyRow e).rest || u₁.isBound (u.subst.applyRow a).rest) = true →
      Solves n u₁ [.rows ((u.subst.applyRow e).residual (u.subst.applyRow a))
        ((u.subst.applyRow a).residual (u.subst.applyRow e))] verdict u' →
      Solves (n + 1) u [.rows e a] verdict u'
  | tails {n : Nat} {u u₁ u' : Unifier} {e a : Row} {verdict : Verdict} : e.kind = a.kind →
      u.subst.applyRow e ≠ u.subst.applyRow a →
      Solves n (u.record .enterRows (.record (u.subst.applyRow e)) (.record (u.subst.applyRow a)))
        ((u.subst.applyRow e).commonGoals (u.subst.applyRow a)) .solved u₁ →
      (u₁.isBound (u.subst.applyRow e).rest || u₁.isBound (u.subst.applyRow a).rest) = false →
      SettlesTails u₁ (u.subst.applyRow e) (u.subst.applyRow a) verdict u' →
      Solves (n + 1) u [.rows e a] verdict u'

theorem bindsType_bindTypeVar (u : Unifier) (v : TypeVar) (t : Ty) :
    BindsType u v t (.ofAnswer (bindTypeVar v t u).1) (bindTypeVar v t u).2 := by
  simp only [bindTypeVar, exec_ite, exec_bind, exec_pure, run_note, exec_throw, exec_modify]
  by_cases hsame : t = .var v
  · rw [if_pos hsame]
    exact .same hsame
  rw [if_neg hsame]
  by_cases hoccurs : (t.typeVars.contains v.id && !t.isVar) = true
  · rw [if_pos hoccurs]
    rw [Bool.and_eq_true, List.contains_iff_mem, Ty.mem_typeVars_iff] at hoccurs
    exact .refused _ rfl hsame (.inl ⟨hoccurs.1, by simpa using hoccurs.2⟩)
  rw [if_neg hoccurs]
  by_cases hkind : v.kind ≠ t.kind
  · rw [if_pos hkind]
    exact .refused _ rfl hsame (.inr hkind)
  rw [if_neg hkind]
  have hkind := Decidable.not_not.mp hkind
  refine .bound hsame ?_ hkind
  rw [← Ty.mem_typeVars_iff]
  intro hmem
  simp only [Bool.and_eq_true, List.contains_iff_mem, hmem, true_and, Bool.not_eq_true', Bool.not_eq_false] at hoccurs
  cases t with
  | var w =>
      have hid : v.id = w.id := by simpa [Ty.mem_typeVars_iff] using hmem
      exact hsame (by rw [show w = v from by cases v; cases w; simp_all [Ty.kind]])
  | _ => cases hoccurs

theorem bindsTail_bindTail (u : Unifier) (r : RowVarId) (row : Row) :
    BindsTail u r row (.ofAnswer (bindTail r row u).1) (bindTail r row u).2 := by
  simp only [bindTail, exec_ite, exec_bind, exec_pure, run_note, exec_throw, exec_modify, Row.isEmpty, List.isEmpty_iff]
  by_cases hsame : row.rest = some r ∧ row.fields = []
  · rw [if_pos hsame]
    exact .same hsame.1 hsame.2
  rw [if_neg hsame]
  by_cases hoccurs : row.rowVars.contains r = true
  · rw [if_pos hoccurs]
    exact .refused hsame (Row.mem_rowVars_iff.mp (List.contains_iff_mem.mp hoccurs))
  · rw [if_neg hoccurs]
    exact .bound fun h => hoccurs (List.contains_iff_mem.mpr (Row.mem_rowVars_iff.mpr h))

theorem run_failLabels (u : Unifier) (shown : Row) (missing extra : List Label) :
    failLabels shown missing extra u =
      (.error (.rows shown.kind missing extra),
        u.record (.fail (.labels missing extra)) (.record shown) (.record shown)) := rfl

theorem settlesTails_requireSameLabels (u : Unifier) {e a : Row} (h : e.rest = a.rest) :
    SettlesTails u e a
      (.ofAnswer (requireSameLabels e (OrderedMap.keys (e.only a)) (OrderedMap.keys (a.only e)) u).1)
      (requireSameLabels e (OrderedMap.keys (e.only a)) (OrderedMap.keys (a.only e)) u).2 := by
  rw [requireSameLabels, exec_ite, exec_pure, run_failLabels]
  by_cases hlabels : e.only a = [] ∧ a.only e = []
  · simp only [hlabels.1, hlabels.2, OrderedMap.keys]
    exact .agree h hlabels.1 hlabels.2
  · rw [if_neg (by simpa [OrderedMap.keys] using hlabels)]
    exact .labels _ _ (.inl ⟨h, hlabels⟩)

theorem settlesTails_unifyTails (u : Unifier) (e a : Row) :
    SettlesTails u e a (.ofAnswer (unifyTails e a u).1) (unifyTails e a u).2 := by
  cases he : e.rest with
  | none =>
      cases ha : a.rest with
      | none =>
          simp only [unifyTails, he, ha]
          exact settlesTails_requireSameLabels u (he.trans ha.symm)
      | some r =>
          simp only [unifyTails, he, ha, exec_ite, run_failLabels, List.isEmpty_iff]
          by_cases honly : a.only e = []
          · rw [if_pos honly]
            exact .actual r _ _ he ha honly (bindsTail_bindTail u r _)
          · rw [if_neg honly]
            exact .labels _ _ (.inr (.inr ⟨he, honly⟩))
  | some r =>
      cases ha : a.rest with
      | none =>
          simp only [unifyTails, he, ha, exec_ite, run_failLabels, List.isEmpty_iff]
          by_cases honly : e.only a = []
          · rw [if_pos honly]
            exact .expected r _ _ he ha honly (bindsTail_bindTail u r _)
          · rw [if_neg honly]
            exact .labels _ _ (.inr (.inl ⟨ha, honly⟩))
      | some r' =>
          simp only [unifyTails, he, ha, exec_ite, exec_bind, run_freshRow, run_note]
          by_cases hr : r = r'
          · rw [if_pos hr]
            exact settlesTails_requireSameLabels u (by rw [he, ha, hr])
          rw [if_neg hr]
          by_cases hlabels : e.only a = [] ∧ a.only e = []
          · rw [if_pos (by simp [hlabels.1, hlabels.2])]
            exact .join r r' _ _ he ha hr hlabels.1 hlabels.2 (bindsTail_bindTail u r _)
          · rw [if_neg (by simpa using hlabels)]
            have first := bindsTail_bindTail (u.skipRow.record (.shareTail r r' u.supply.nextRow) (.record e) (.record a))
              r ⟨e.kind, a.only e, some u.supply.nextRow⟩
            revert first
            rcases bindTail r _ _ with ⟨⟨_⟩ | ⟨⟩, u₁⟩
            · intro first
              exact .shareRefused r r' _ _ he ha hr hlabels first (by simp [Verdict.ofAnswer_eq_solved])
            · intro first
              exact .share r r' _ u₁ _ he ha hr hlabels first (bindsTail_bindTail u₁ r' _)

theorem meet_clash_not_circular {e a : Ty} {failure : Failure} {error : UnifyError}
    (h : e.meet a = .clash failure error) : error.isCircular = false := by
  cases e <;> cases a <;> simp only [Ty.meet, Ty.clash, Ty.clashRecords] at h <;> grind [UnifyError.isCircular]

theorem solves_goals {n : Nat}
    (h : ∀ (g : Goal) (u : Unifier), Solves n u [g] (.ofAnswer (solve n g u).1) (solve n g u).2)
    {ι : Type} {f : ι → Goal} {m : ι → UnifyM Unit}
    (hm : ∀ i u, Verdict.ofAnswer (m i u).1 = Verdict.ofAnswer (solve n (f i) u).1 ∧ (m i u).2 = (solve n (f i) u).2)
    (is : List ι) (u : Unifier) :
    Solves n u (is.map f) (.ofAnswer (is.forM m u).1) (is.forM m u).2 := by
  induction is generalizing u with
  | nil => exact .nil
  | cons i is ih =>
      have head : Solves n u [f i] (.ofAnswer (m i u).1) (m i u).2 := by
        rw [(hm i u).1, (hm i u).2]
        exact h (f i) u
      rw [List.forM_eq_forM, List.forM_cons, exec_bind]
      revert head
      rcases m i u with ⟨⟨_⟩ | ⟨⟩, u₁⟩
      · intro head
        cases is with
        | nil => exact head
        | cons j js => exact .stop head (by simp [Verdict.ofAnswer_eq_solved])
      · intro head
        cases is with
        | nil => exact head
        | cons j js => exact .cons head (ih u₁)

theorem solves_solve (n : Nat) (g : Goal) (u : Unifier) :
    Solves n u [g] (.ofAnswer (solve n g u).1) (solve n g u).2 := by
  induction n generalizing g u with
  | zero => exact .exhausted
  | succ n ih =>
      cases g with
      | types e a =>
          simp only [solve, exec_bind, exec_get, exec_ite, run_note]
          by_cases heq : u.subst.apply e = u.subst.apply a
          · rw [if_pos heq]
            exact .identical heq
          rw [if_neg heq]
          cases hmeet : (u.subst.apply e).meet (u.subst.apply a) with
          | bind v t => exact .bind heq hmeet (bindsType_bindTypeVar u v t)
          | parts part gs =>
              refine .parts heq hmeet ?_
              have := solves_goals ih (f := id) (m := solve n) (fun _ _ => ⟨rfl, rfl⟩) gs
                (u.record (.decompose part) (u.subst.apply e) (u.subst.apply a))
              rwa [List.map_id] at this
          | rows r r' => exact .rows heq hmeet (ih (.rows r r') u)
          | clash failure error =>
              simp only [exec_bind, run_note, exec_throw, Verdict.ofAnswer, meet_clash_not_circular hmeet]
              exact .clash heq hmeet
      | rows e a =>
          simp only [solve, exec_bind, exec_get, exec_ite, run_note, exec_throw, exec_pure]
          by_cases hkind : e.kind ≠ a.kind
          · rw [if_pos hkind]
            exact .kinds hkind
          rw [if_neg hkind]
          have hkind := Decidable.not_not.mp hkind
          by_cases heq : u.subst.applyRow e = u.subst.applyRow a
          · rw [if_pos heq]
            exact .equal hkind heq
          rw [if_neg heq]
          have fields := solves_goals ih (f := fun c : Label × Ty × Ty => .types c.2.1 c.2.2)
            (m := fun c => inField c.1 (solve n (.types c.2.1 c.2.2)))
            (by
              intro c u
              rw [run_inField]
              rcases solve n (.types c.2.1 c.2.2) u with ⟨⟨_⟩ | ⟨⟩, u₁⟩ <;> exact ⟨rfl, rfl⟩)
            ((u.subst.applyRow e).common (u.subst.applyRow a))
            (u.record .enterRows (.record (u.subst.applyRow e)) (.record (u.subst.applyRow a)))
          revert fields
          rcases (List.forM _ _ : UnifyM PUnit) _ with ⟨⟨_⟩ | ⟨⟩, u₁⟩
          · intro fields
            exact .fields hkind heq fields (by simp [Verdict.ofAnswer_eq_solved])
          · intro fields
            by_cases hbound : (u₁.isBound (u.subst.applyRow e).rest || u₁.isBound (u.subst.applyRow a).rest) = true
            · simp only [hbound, if_true]
              exact .restart hkind heq fields hbound (ih _ u₁)
            · simp only [hbound]
              exact .tails hkind heq fields (by simpa using hbound) (settlesTails_unifyTails u₁ _ _)

theorem depth_pos (g : Goal) : ∃ n, g.depth = n + 1 :=
  Nat.exists_eq_succ_of_ne_zero (Nat.ne_of_gt (Nat.mul_pos (Nat.succ_pos _) (Nat.pow_pos (by decide))))

theorem solves_run (g : Goal) (u : Unifier) :
    Solves (u.applyGoal g).depth u [g] (.ofAnswer (run g u).1) (run g u).2 :=
  solves_solve _ g u

end Unifier

end RowTyping
