import RowTyping.Scheme

namespace RowTyping

namespace Ty

mutual

def subst (σ : TypeVarId → Option Ty) (ρ : RowVarId → Option Row) : Ty → Ty
  | .var v => (σ v.id).getD (.var v)
  | .con name => .con name
  | .app h as => .app (subst σ ρ h) (substAll σ ρ as)
  | .list a => .list (subst σ ρ a)
  | .tuple as => .tuple (substAll σ ρ as)
  | .fn ps e r => .fn (substAll σ ρ ps) (substEffects σ ρ e) (subst σ ρ r)
  | .record r => .record (substRow σ ρ r)
termination_by structural t => t

def substAll (σ : TypeVarId → Option Ty) (ρ : RowVarId → Option Row) : List Ty → List Ty
  | [] => []
  | t :: ts => subst σ ρ t :: substAll σ ρ ts
termination_by structural ts => ts

def substEffects (σ : TypeVarId → Option Ty) (ρ : RowVarId → Option Row) : Option Row → Option Row
  | none => none
  | some r => some (substRow σ ρ r)
termination_by structural e => e

/-- A replaced tail gives its fields and its own tail; its fields replace those of the row. -/
def substRow (σ : TypeVarId → Option Ty) (ρ : RowVarId → Option Row) : Row → Row
  | ⟨k, fs, rest⟩ =>
      match rest.bind ρ with
      | none => ⟨k, substFields σ ρ fs, rest⟩
      | some tail => ⟨k, OrderedMap.merge (substFields σ ρ fs) tail.fields, tail.rest⟩
termination_by structural r => r

def substFields (σ : TypeVarId → Option Ty) (ρ : RowVarId → Option Row) :
    List (Label × Ty) → List (Label × Ty)
  | [] => []
  | (l, t) :: fs => (l, subst σ ρ t) :: substFields σ ρ fs
termination_by structural fs => fs

end

variable {σ : TypeVarId → Option Ty} {ρ : RowVarId → Option Row}

theorem substAll_eq (ts : List Ty) : substAll σ ρ ts = ts.map (subst σ ρ) := by
  induction ts with
  | nil => rfl
  | cons t ts ih => simp [substAll, ih]

theorem substEffects_eq (e : Effects) : substEffects σ ρ e = e.map (substRow σ ρ) := by
  cases e <;> rfl

theorem substFields_eq (fs : List (Label × Ty)) :
    substFields σ ρ fs = OrderedMap.mapValues (subst σ ρ) fs := by
  induction fs with
  | nil => rfl
  | cons f fs ih => simp only [substFields, ih, OrderedMap.mapValues, List.map_cons]

end Ty

structure Substitution where
  types : OrderedMap TypeVarId Ty
  rows : OrderedMap RowVarId Row
  deriving DecidableEq

namespace Substitution

def empty : Substitution := ⟨[], []⟩

instance : Inhabited Substitution := ⟨empty⟩

def bindType (s : Substitution) (v : TypeVarId) (t : Ty) : Substitution :=
  { s with types := s.types.insert v t }

def bindRow (s : Substitution) (v : RowVarId) (r : Row) : Substitution :=
  { s with rows := s.rows.insert v r }

def lookupType (s : Substitution) (v : TypeVarId) : Option Ty :=
  s.types.find? v

def lookupRow (s : Substitution) (v : RowVarId) : Option Row :=
  s.rows.find? v

def isEmpty (s : Substitution) : Bool :=
  s.types.isEmpty && s.rows.isEmpty

/-- Without cycles no chain of bindings is longer. -/
def depth (s : Substitution) : Nat :=
  s.types.length + s.rows.length

mutual

def chase (s : Substitution) : Nat → Ty → Ty
  | 0, t => t
  | n + 1, t => t.subst (fun v => (s.lookupType v).map (chase s n)) fun v => (s.lookupRow v).map (chaseRow s n)
termination_by structural n => n

def chaseRow (s : Substitution) : Nat → Row → Row
  | 0, r => r
  | n + 1, r =>
      Ty.substRow (fun v => (s.lookupType v).map (chase s n)) (fun v => (s.lookupRow v).map (chaseRow s n)) r
termination_by structural n => n

end

def apply (s : Substitution) (t : Ty) : Ty :=
  s.chase s.depth t

def applyRow (s : Substitution) (r : Row) : Row :=
  s.chaseRow s.depth r

def applyEffects (s : Substitution) (e : Effects) : Effects :=
  e.map s.applyRow

def applyPredicate (s : Substitution) (p : Predicate) : Predicate :=
  { p with ty := s.apply p.ty }

def outside (s : Substitution) (scheme : Scheme) : Substitution where
  types := scheme.typeVars.foldl (fun m v => m.erase v.id) s.types
  rows := scheme.rowVars.foldl OrderedMap.erase s.rows

def applyScheme (s : Substitution) (scheme : Scheme) : Scheme :=
  let free := s.outside scheme
  { scheme with
    predicates := scheme.predicates.map free.applyPredicate
    ty := free.apply scheme.ty }

/-- First `s`, then `t`: where both bind a variable, `s` decides. -/
def compose (s t : Substitution) : Substitution where
  types := t.types.merge (s.types.mapValues t.apply)
  rows := t.rows.merge (s.rows.mapValues t.applyRow)

end Substitution

end RowTyping
