import RowTyping.Proofs.Apart
import RowTyping.Proofs.Unification.Moves

namespace RowTyping

def TypeVar.Starred (v : TypeVar) : Prop :=
  v.kind = .star

def Ty.Over (C : TypeVar → Prop) (t : Ty) : Prop :=
  ∀ v, .type v ∈ t.occurrences → C v

def Row.Over (C : TypeVar → Prop) (r : Row) : Prop :=
  ∀ v, .type v ∈ r.occurrences → C v

abbrev Ty.Starred (t : Ty) : Prop :=
  t.Over TypeVar.Starred

abbrev Row.Starred (r : Row) : Prop :=
  r.Over TypeVar.Starred

def Ty.Suits (C : TypeVar → Prop) (A : Assignment) (t : Ty) : Prop :=
  t.Apart A ∧ t.Over C

def Row.Suits (C : TypeVar → Prop) (A : Assignment) (r : Row) : Prop :=
  r.AllApart A ∧ r.Over C

abbrev Ty.Fits (A : Assignment) (t : Ty) : Prop :=
  t.Suits TypeVar.Starred A

abbrev Row.Fits (A : Assignment) (r : Row) : Prop :=
  r.Suits TypeVar.Starred A

variable {C : TypeVar → Prop}

theorem hereditary_over (C : TypeVar → Prop) : Hereditary (Ty.Over C) (Row.Over C) := by
  have hiff (l : List Occurrence) : (∀ o ∈ l, ∀ v, o = .type v → C v) ↔ ∀ v, .type v ∈ l → C v :=
    ⟨fun h v hv => h _ hv v rfl, fun h o ho v hv => h v (hv ▸ ho)⟩
  have hereditary := hereditary_occurrences fun o => ∀ v, o = .type v → C v
  simp only [hiff] at hereditary
  exact hereditary

theorem hereditary_suits (C : TypeVar → Prop) (A : Assignment) : Hereditary (Ty.Suits C A) (Row.Suits C A) :=
  (hereditary_rows (Row.Apart A) (fun _ h => (List.not_mem_nil h).elim) fun _ p h => h.filter p).and
    (hereditary_over C)

namespace Assignment

variable {A A' : Assignment} {sup : Supply} {s : Substitution}

structure Agree (sup : Supply) (A A' : Assignment) : Prop where
  type : A.type = A'.type
  row : ∀ r < sup.nextRow, A.row r = A'.row r

theorem Agree.refl (sup : Supply) (A : Assignment) : A.Agree sup A :=
  ⟨rfl, fun _ _ => rfl⟩

theorem Agree.trans {A₁ : Assignment} {sup₁ : Supply} (h : A.Agree sup A₁) (h' : A₁.Agree sup₁ A')
    (hcovers : ∀ v, sup.Covers v → sup₁.Covers v) : A.Agree sup A' :=
  ⟨h.type.trans h'.type, fun r hr => (h.row r hr).trans (h'.row r (hcovers (.row r) hr))⟩

theorem Agree.on (h : A.Agree sup A') {o : Occurrence} (ho : sup.Covers o.var) : A.AgreeOn A' o := by
  cases o with
  | type v => exact congrFun h.type v
  | tail r k => exact h.row r ho

theorem Agree.tail (h : A.Agree sup A') {rest : Option RowVarId} (hrest : ∀ w, rest = some w → sup.Covers (.row w)) :
    A.tail rest = A'.tail rest := by
  cases rest with
  | none => rfl
  | some w => exact h.row w (hrest w rfl)

theorem Agree.value (h : A.Agree sup A') {t : Ty} (ht : ∀ v ∈ t.vars, sup.Covers v) : t.value A = t.value A' :=
  Ty.value_congr fun o ho => h.on (ht _ (Ty.mem_vars_iff.mpr ⟨o, ho, rfl⟩))

theorem Agree.value_row (h : A.Agree sup A') {r : Row} (hr : ∀ v ∈ r.vars, sup.Covers v) : r.value A = r.value A' :=
  Ty.value_congr_row fun o ho => h.on (hr _ (Row.mem_vars_iff.mpr ⟨o, ho, rfl⟩))

theorem Agree.apart (h : A.Agree sup A') {r : Row} (hr : ∀ v ∈ r.vars, sup.Covers v) (hapart : r.Apart A) :
    r.Apart A' := by
  obtain ⟨k, fs, rest⟩ := r
  intro l hl
  rw [← h.tail fun w hw => hr _ (Row.mem_vars.mpr (.inr ⟨w, hw, rfl⟩))]
  exact hapart l hl

theorem Agree.suits (h : A.Agree sup A') {t : Ty} (ht : ∀ v ∈ t.vars, sup.Covers v) (hfits : t.Suits C A) : t.Suits C A' :=
  ⟨fun r hr => h.apart (fun v hv => ht v (Row.vars_of_mem_rows.1 t hr v hv)) (hfits.1 r hr), hfits.2⟩

theorem Agree.suits_row (h : A.Agree sup A') {r : Row} (hr : ∀ v ∈ r.vars, sup.Covers v) (hfits : r.Suits C A) :
    r.Suits C A' :=
  ⟨fun r' hr' => h.apart (fun v hv => hr v (Row.vars_of_mem_rows.2 r hr' v hv)) (hfits.1 r' hr'), hfits.2⟩

end Assignment

def Tail.Ground (T : Tail) : Prop :=
  T.rest = none ∧ ∀ f ∈ T.fields, f.2.isGround = true

instance (T : Tail) : Decidable T.Ground :=
  inferInstanceAs (Decidable (_ ∧ _))

-- The kind check never stands between a variable and a type of the same meaning.
structure Assignment.Regular (C : TypeVar → Prop) (A : Assignment) : Prop where
  ordered : A.Ordered
  uniform : A.Uniform
  kinds : ∀ v w, C v → C w → A.type v = A.type w → v.kind = w.kind
  star : ∀ v, C v → (A.type v).isVar = false → v.kind = .star

structure Assignment.Proper (A : Assignment) : Prop where
  ordered : A.Ordered
  uniform : A.Uniform
  ground : ∀ r, (A.row r).Ground

theorem Assignment.Proper.regular {A : Assignment} (hA : A.Proper) : A.Regular TypeVar.Starred where
  ordered := hA.ordered
  uniform := hA.uniform
  kinds _ _ hv hw _ := hv.trans hw.symm
  star _ hv _ := hv

theorem Assignment.Regular.kind_eq {C : TypeVar → Prop} {A : Assignment} (hA : A.Regular C) {v : TypeVar} {t : Ty} (hv : C v)
    (ht : t.Over C) (heq : A.type v = t.value A) : v.kind = t.kind := by
  cases t with
  | var w => exact hA.kinds v w hv (ht w (Ty.mem_occurrences_var.mpr rfl)) heq
  | _ => exact hA.star v hv (by simp [heq, Ty.isVar])

structure Assignment.Satisfies (C : TypeVar → Prop) (A : Assignment) (s : Substitution) : Prop where
  models : A.Models s
  fits : s.All (Ty.Suits C A) (Row.Suits C A)

abbrev Assignment.Fulfils (A : Assignment) (s : Substitution) : Prop :=
  A.Satisfies TypeVar.Starred s

def Goal.Solved (C : TypeVar → Prop) (A : Assignment) (g : Goal) : Prop :=
  g.Holds A ∧ g.Both (Ty.Suits C A) (Row.Suits C A)

structure Assignment.Continues (C : TypeVar → Prop) (A : Assignment) (sup : Supply) (A' : Assignment) (s : Substitution) :
    Prop where
  regular : A'.Regular C
  agree : A.Agree sup A'
  satisfies : A'.Satisfies C s
  ground : (∀ r, (A.row r).Ground) → ∀ r, (A'.row r).Ground

namespace Assignment

variable {A A' : Assignment} {sup : Supply} {s : Substitution}

theorem Satisfies.agree (h : A.Satisfies C s) (hagree : A.Agree sup A') (hs : s.Within sup)
    (hcovers : ∀ v, s.Binds v → sup.Covers v) : A'.Satisfies C s where
  models := by
    constructor
    · intro id t ht k
      rw [← hagree.value (hs.1 id t ht).2, ← h.models.1 id t ht k]
      rw [hagree.type]
    · intro id r hr
      rw [← hagree.value_row (hs.2 id r hr).2, ← h.models.2 id r hr]
      exact (hagree.row id (hcovers (.row id) ⟨r, hr⟩)).symm
  fits := ⟨fun id t ht => hagree.suits (hs.1 id t ht).2 (h.fits.1 id t ht),
    fun id r hr => hagree.suits_row (hs.2 id r hr).2 (h.fits.2 id r hr)⟩

theorem Agree.solved (h : A.Agree sup A') {g : Goal} (hg : g.Within sup) (hsolved : g.Solved C A) : g.Solved C A' := by
  cases g with
  | types e a =>
      refine ⟨?_, h.suits hg.1.2 hsolved.2.1, h.suits hg.2.2 hsolved.2.2⟩
      rw [Goal.holds_types, ← h.value hg.1.2, ← h.value hg.2.2]
      exact hsolved.1
  | rows e a =>
      refine ⟨?_, h.suits_row hg.1.2 hsolved.2.1, h.suits_row hg.2.2 hsolved.2.2⟩
      rw [Goal.holds_rows, ← h.value_row hg.1.2, ← h.value_row hg.2.2]
      exact hsolved.1

theorem Satisfies.apply (h : A.Satisfies C s) (hA : A.Ordered) (hs : s.Ordered) {t : Ty} (ht : t.Suits C A) : (s.apply t).Suits C A :=
  ⟨h.models.apply_apart hA hs ⟨fun id t ht => (h.fits.1 id t ht).1, fun id r hr => (h.fits.2 id r hr).1⟩ ht.1,
    Substitution.All.apply ⟨fun id t ht => (h.fits.1 id t ht).2, fun id r hr => (h.fits.2 id r hr).2⟩
      (substitutive_typeVars _) ht.2⟩

theorem Satisfies.applyRow (h : A.Satisfies C s) (hA : A.Ordered) (hs : s.Ordered) {r : Row} (hr : r.Suits C A) :
    (s.applyRow r).Suits C A :=
  ⟨h.models.applyRow_apart hA hs ⟨fun id t ht => (h.fits.1 id t ht).1, fun id r hr => (h.fits.2 id r hr).1⟩ hr.1,
    Substitution.All.applyRow ⟨fun id t ht => (h.fits.1 id t ht).2, fun id r hr => (h.fits.2 id r hr).2⟩
      (substitutive_typeVars _) hr.2⟩

theorem Satisfies.bindType (h : A.Satisfies C s) (hA : A.Uniform) {v : TypeVar} {t : Ty} (ht : t.Suits C A)
    (heq : A.type v = t.value A) : A.Satisfies C (s.bindType v.id t) where
  models := by
    refine ⟨fun id x hx k => ?_, h.models.2⟩
    rw [Substitution.lookupType_bindType] at hx
    by_cases hid : id = v.id
    · rw [if_pos hid] at hx
      cases hx
      rw [← heq, hA v, hA ⟨id, k⟩, hid]
    · rw [if_neg hid] at hx
      exact h.models.1 id x hx k
  fits := h.fits.bindType ht

theorem Satisfies.bindRow (h : A.Satisfies C s) {r : RowVarId} {row : Row} (hrow : row.Suits C A)
    (heq : A.row r = (row.value A).tail) : A.Satisfies C (s.bindRow r row) where
  models := by
    refine ⟨h.models.1, fun id x hx => ?_⟩
    rw [Substitution.lookupRow_bindRow] at hx
    by_cases hid : id = r
    · rw [if_pos hid] at hx
      cases hx
      rw [hid, heq]
    · rw [if_neg hid] at hx
      exact h.models.2 id x hx
  fits := h.fits.bindRow hrow

theorem Satisfies.acyclic (h : A.Satisfies C s) (hA : A.Regular C) (hs : s.Ordered) (hchain : s.Chainless) : s.Acyclic :=
  h.models.acyclic hA.ordered hA.uniform hs
    ⟨fun id t ht => (h.fits.1 id t ht).1, fun id r hr => (h.fits.2 id r hr).1⟩ hchain

end Assignment

end RowTyping
