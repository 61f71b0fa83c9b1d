import RowTyping.Proofs.Freshness.Contained
import RowTyping.Proofs.Freshness.Mentions
import RowTyping.Proofs.Unification.Finite
/-!
Unification from bindings and goals below the counters: a tail is drawn before anything is bound to it. Nothing else is asked of the
bindings, which may contradict one another or be cyclic.
-/

namespace RowTyping

theorem Supply.Covers.freshType {s : Supply} {v : Var} (h : s.Covers v) : s.freshType.2.Covers v := by
  cases v with
  | type => exact Nat.lt_succ_of_lt h
  | row => exact h

namespace Unifier

open Walk (Silent)

def Fresh (u : Unifier) : Prop :=
  ∀ v ∈ u.subst.mentions, u.supply.Covers v

def guard : Guard Unifier where
  good := Fresh
  drawn u := u.supply.Covers

theorem Fresh.drawType {u : Unifier} (h : u.Fresh) : guard.Leads u { u with supply := u.supply.freshType.2 } :=
  ⟨fun v hv => (h v hv).freshType, fun _ hv => hv.freshType⟩

theorem Fresh.drawRow {u : Unifier} (h : u.Fresh) : guard.Leads u u.skipRow :=
  ⟨fun v hv => (h v hv).freshRow, fun _ hv => hv.freshRow⟩

theorem Fresh.bindType {u : Unifier} (h : u.Fresh) {v : TypeVarId} {t : Ty} (hv : u.supply.Covers (.type v))
    (ht : ∀ w ∈ t.vars, u.supply.Covers w) : guard.Leads u (u.bindType v t) := by
  refine ⟨fun w hw => ?_, fun _ hw => hw⟩
  rcases Substitution.mem_mentions_bindType hw with rfl | hw | hw
  · exact hv
  · exact ht w hw
  · exact h w hw

theorem Fresh.bindRow {u : Unifier} (h : u.Fresh) {r : RowVarId} {row : Row} (hr : u.supply.Covers (.row r))
    (hrow : ∀ w ∈ row.vars, u.supply.Covers w) : guard.Leads u (u.bindRow r row) := by
  refine ⟨fun w hw => ?_, fun _ hw => hw⟩
  rcases Substitution.mem_mentions_bindRow hw with rfl | hw | hw
  · exact hr
  · exact hrow w hw
  · exact h w hw

def Answered {α : Type} (V : α → Var → Prop) : Except UnifyError α → Var → Prop
  | .ok a => V a
  | .error _ => fun _ => False

abbrev Contained {α : Type} (K : Var → Prop) (m : UnifyM α) (V : α → Var → Prop) : Prop :=
  Walk.Contained guard K (m : Walk Unifier (Except UnifyError α)) (Answered V)

section Rules

variable {α β : Type} {K : Var → Prop} {V : α → Var → Prop} {W : β → Var → Prop}

theorem contained_pure {a : α} (h : ∀ v, V a v → K v) : Contained K (pure a : UnifyM α) V :=
  Walk.contained_pure (a := Except.ok a) h

theorem contained_throw (e : UnifyError) : Contained K (throw e : UnifyM α) V :=
  Walk.contained_pure (a := Except.error e) fun _ => False.elim

theorem Contained.bind {m : UnifyM α} {f : α → UnifyM β} (hm : Contained K m V)
    (hf : ∀ a, Contained (fun v => V a v ∨ K v) (f a) W) : Contained K (m >>= f) W := by
  refine Walk.Contained.bind hm fun answer => ?_
  cases answer with
  | ok a => exact hf a
  | error e => exact contained_throw e

theorem Contained.after {m : UnifyM α} {f : α → UnifyM β} (hm : Contained K m (Silent α)) (hf : ∀ a, Contained K (f a) W) :
    Contained K (m >>= f) W := by
  refine Contained.bind hm fun a => ?_
  exact (hf a).knows fun _ => .inr

theorem contained_get {f : Unifier → UnifyM α} (h : ∀ u, Contained (fun v => v ∈ u.subst.mentions ∨ K v) (f u) V) :
    Contained K (get >>= f) V :=
  Walk.contained_get (R := fun u v => v ∈ u.subst.mentions) (fun _ hu => hu) h

theorem contained_modify {f : Unifier → Unifier} (h : ∀ u, guard.Admits K u → guard.Leads u (f u)) :
    Contained K (modify f : UnifyM Unit) (Silent Unit) := by
  refine Walk.Contained.bind (Walk.contained_modify h) fun _ => ?_
  exact Walk.contained_pure fun _ => False.elim

theorem contained_note (action : Action) (left right : Ty) : Contained K (note action left right) (Silent Unit) :=
  contained_modify fun _ hu => ⟨hu.good, fun _ hv => hv⟩

theorem contained_ite {p : Prop} [Decidable p] {m m' : UnifyM α} (h : p → Contained K m V) (h' : ¬ p → Contained K m' V) :
    Contained K (if p then m else m') V := by
  split
  next hp => exact h hp
  next hp => exact h' hp

theorem contained_forM {f : β → UnifyM Unit} {as : List β} (h : ∀ a ∈ as, Contained K (f a) (Silent Unit)) :
    Contained K (as.forM f) (Silent Unit) := by
  induction as with
  | nil => exact contained_pure fun _ => False.elim
  | cons a as ih =>
      rw [List.forall_mem_cons] at h
      exact h.1.after fun _ => ih h.2

theorem contained_inField (l : Label) {m : UnifyM Unit} (hm : Contained K m (Silent Unit)) : Contained K (inField l m) (Silent Unit) := by
  simp only [inField, tryCatch, tryCatchThe, MonadExceptOf.tryCatch, ExceptT.tryCatch, ExceptT.mk]
  refine Walk.Contained.bind hm fun answer => ?_
  cases answer with
  | ok => exact contained_pure fun _ => False.elim
  | error e => exact contained_throw (.field l e)

end Rules

section Steps

variable {K : Var → Prop}

theorem contained_freshRow : Contained K freshRow fun r v => v = .row r := by
  let answer (r : RowVarId) : Walk Unifier (Except UnifyError RowVarId) := pure (.ok r)
  let draw (u : Unifier) : RowVarId × Unifier := (u.supply.nextRow, u.skipRow)
  refine Walk.Contained.bind (m := modifyGet draw) (f := answer) (V := fun r v => v = .row r) (Walk.contained_modifyGet ?_ ?_) fun r => ?_
  · exact fun u hu => Fresh.drawRow hu.good
  · rintro u - v rfl
    exact Nat.lt_succ_self _
  · exact Walk.contained_pure fun _ => .inl

theorem contained_bindTypeVar {v : TypeVar} {t : Ty} (hv : K (.type v.id)) (ht : ∀ w ∈ t.vars, K w) :
    Contained K (bindTypeVar v t) (Silent Unit) := by
  refine contained_ite (fun _ => contained_pure fun _ => False.elim) fun _ => ?_
  refine contained_ite (fun _ => ?_) fun _ => ?_
  · exact (contained_note ..).after fun _ => contained_throw _
  refine contained_ite (fun _ => ?_) fun _ => ?_
  · exact (contained_note ..).after fun _ => contained_throw _
  refine (contained_note ..).after fun _ => ?_
  refine contained_modify fun u hu => ?_
  exact Fresh.bindType hu.good (hu.knows _ hv) fun w hw => hu.knows w (ht w hw)

theorem contained_bindTail {r : RowVarId} {row : Row} (hr : K (.row r)) (hrow : ∀ w ∈ row.vars, K w) :
    Contained K (bindTail r row) (Silent Unit) := by
  refine contained_ite (fun _ => contained_pure fun _ => False.elim) fun _ => ?_
  refine contained_ite (fun _ => ?_) fun _ => ?_
  · exact (contained_note ..).after fun _ => contained_throw _
  refine (contained_note ..).after fun _ => ?_
  refine contained_modify fun u hu => ?_
  exact Fresh.bindRow hu.good (hu.knows _ hr) fun w hw => hu.knows w (hrow w hw)

theorem contained_failLabels (shown : Row) (missing extra : List Label) :
    Contained K (failLabels shown missing extra) (Silent Unit) :=
  (contained_note ..).after fun _ => contained_throw _

theorem contained_requireSameLabels (shown : Row) (missing extra : List Label) :
    Contained K (requireSameLabels shown missing extra) (Silent Unit) :=
  contained_ite (fun _ => contained_pure fun _ => False.elim) fun _ => contained_failLabels ..

theorem contained_unifyTails {e a : Row} (he : ∀ v ∈ e.vars, K v) (ha : ∀ v ∈ a.vars, K v) :
    Contained K (unifyTails e a) (Silent Unit) := by
  rw [unifyTails]
  cases hr : e.rest with
  | none =>
      cases hr' : a.rest with
      | none => exact contained_requireSameLabels ..
      | some r =>
          refine contained_ite (fun _ => ?_) fun _ => contained_failLabels ..
          refine contained_bindTail (Row.vars_rest ha hr') (Row.vars_only he _ ?_)
          rintro w ⟨⟩
  | some r =>
      cases hr' : a.rest with
      | none =>
          refine contained_ite (fun _ => ?_) fun _ => contained_failLabels ..
          refine contained_bindTail (Row.vars_rest he hr) (Row.vars_only ha _ ?_)
          rintro w ⟨⟩
      | some r' =>
          refine contained_ite (fun _ => contained_requireSameLabels ..) fun _ => ?_
          refine contained_ite (fun _ => ?_) fun _ => ?_
          · refine contained_bindTail (Row.vars_rest he hr) fun v hv => ?_
            obtain ⟨_, hf, _⟩ | ⟨_, ⟨⟩, rfl⟩ := Row.mem_vars.mp hv
            · cases hf
            · exact Row.vars_rest ha hr'
          -- Both tails come to end in the tail that was just drawn.
          refine contained_freshRow.bind fun shared => ?_
          refine (contained_note ..).after fun _ => ?_
          refine (contained_bindTail (.inr (Row.vars_rest he hr)) ?_).after fun _ => ?_
          · refine Row.vars_only (fun v hv => .inr (ha v hv)) _ ?_
            rintro w ⟨⟩
            exact .inl rfl
          · apply contained_bindTail (.inr (Row.vars_rest ha hr'))
            refine Row.vars_only (fun v hv => .inr (he v hv)) _ ?_
            rintro w ⟨⟩
            exact .inl rfl

theorem contained_solve (n : Nat) {g : Goal} (hg : ∀ v ∈ g.vars, K v) : Contained K (solve n g) (Silent Unit) := by
  induction n generalizing K g with
  | zero => exact contained_throw _
  | succ n ih =>
      cases g with
      | types e a =>
          obtain ⟨he, ha⟩ := (Goal.both_vars _).mpr hg
          refine contained_get fun u => ?_
          have he (v : Var) (hv : v ∈ (u.subst.apply e).vars) : v ∈ u.subst.mentions ∨ K v :=
            (Substitution.mem_vars_or_mentions hv).symm.imp_right (he v)
          have ha (v : Var) (hv : v ∈ (u.subst.apply a).vars) : v ∈ u.subst.mentions ∨ K v :=
            (Substitution.mem_vars_or_mentions hv).symm.imp_right (ha v)
          refine contained_ite (fun _ => contained_note ..) fun _ => ?_
          cases hmeet : (u.subst.apply e).meet (u.subst.apply a) with
          | bind v t =>
              rcases Ty.bind_of_meet hmeet with ⟨hx, rfl⟩ | ⟨hx, rfl⟩
              · exact contained_bindTypeVar (he _ (hx ▸ Ty.mem_vars_var.mpr rfl)) ha
              · exact contained_bindTypeVar (ha _ (hx ▸ Ty.mem_vars_var.mpr rfl)) he
          | parts part goals =>
              refine (contained_note ..).after fun _ => ?_
              have hgoals := (Ty.parts_of_meet hmeet).both (hereditary_vars _).toInherited he ha
              exact contained_forM fun g hg => ih ((Goal.both_vars g).mp (hgoals g hg))
          | rows r r' =>
              obtain ⟨hx, hy⟩ := Ty.rows_of_meet hmeet
              rw [hx] at he
              rw [hy] at ha
              exact ih ((Goal.both_vars (.rows r r')).mp ⟨(hereditary_vars _).record he, (hereditary_vars _).record ha⟩)
          | clash failure error => exact (contained_note ..).after fun _ => contained_throw _
      | rows e a =>
          obtain ⟨he, ha⟩ := (Goal.both_vars _).mpr hg
          refine contained_ite (fun _ => ?_) fun _ => ?_
          · exact (contained_note ..).after fun _ => contained_throw _
          refine contained_get fun u => ?_
          have he (v : Var) (hv : v ∈ (u.subst.applyRow e).vars) : v ∈ u.subst.mentions ∨ K v :=
            (Substitution.mem_vars_or_mentions_row hv).symm.imp_right (he v)
          have ha (v : Var) (hv : v ∈ (u.subst.applyRow a).vars) : v ∈ u.subst.mentions ∨ K v :=
            (Substitution.mem_vars_or_mentions_row hv).symm.imp_right (ha v)
          refine contained_ite (fun _ => contained_pure fun _ => False.elim) fun _ => ?_
          refine (contained_note ..).after fun _ => ?_
          refine Contained.after (contained_forM fun c hc => contained_inField c.1 (ih ?_)) fun _ => ?_
          · have hcommon := Row.commonGoals_both (hereditary_vars _).toInherited he ha
            exact (Goal.both_vars _).mp (hcommon _ (List.mem_map_of_mem hc))
          refine contained_get fun u' => ?_
          refine contained_ite (fun _ => ih ?_) fun _ => ?_
          · refine (Goal.both_vars (.rows _ _)).mp ⟨fun v hv => .inr ?_, fun v hv => .inr ?_⟩
            · exact (hereditary_vars _).residual _ he v hv
            · exact (hereditary_vars _).residual _ ha v hv
          · exact contained_unifyTails (fun v hv => .inr (he v hv)) fun v hv => .inr (ha v hv)

theorem contained_attempt {g : Goal} (hg : ∀ v ∈ g.vars, K v) : Contained K (attempt g) (Silent Unit) := by
  refine contained_get fun u => ?_
  exact contained_solve _ fun v hv => .inr (hg v hv)

end Steps

end Unifier

end RowTyping
