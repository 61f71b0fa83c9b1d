import RowTyping.Ty.Basic

namespace RowTyping

inductive Occurrence where
  | type (v : TypeVar)
  | tail (id : RowVarId) (kind : Kind)
  deriving DecidableEq, Repr

namespace Occurrence

def type? : Occurrence → Option TypeVar
  | .type v => some v
  | .tail _ _ => none

def tail? : Occurrence → Option (RowVarId × Kind)
  | .type _ => none
  | .tail r k => some (r, k)

end Occurrence

namespace Ty

mutual

def occurrences : Ty → List Occurrence
  | .var v => [.type v]
  | .con _ => []
  | .app h as => h.occurrences ++ occurrencesAll as
  | .list a => a.occurrences
  | .tuple as => occurrencesAll as
  | .fn ps e r => occurrencesAll ps ++ occurrencesEffects e ++ r.occurrences
  | .record r => occurrencesRow r
termination_by structural t => t

def occurrencesAll : List Ty → List Occurrence
  | [] => []
  | t :: ts => t.occurrences ++ occurrencesAll ts
termination_by structural ts => ts

def occurrencesEffects : Option Row → List Occurrence
  | none => []
  | some r => occurrencesRow r
termination_by structural e => e

def occurrencesRow : Row → List Occurrence
  | ⟨k, fs, rest⟩ => occurrencesFields fs ++ (rest.map (Occurrence.tail · k)).toList
termination_by structural r => r

def occurrencesFields : List (Label × Ty) → List Occurrence
  | [] => []
  | (_, t) :: fs => t.occurrences ++ occurrencesFields fs
termination_by structural fs => fs

end

mutual

def latentLabels : Ty → List Label
  | .var _ => []
  | .con _ => []
  | .app h as => h.latentLabels ++ latentLabelsAll as
  | .list a => a.latentLabels
  | .tuple as => latentLabelsAll as
  | .fn ps e r => Effects.labels e ++ latentLabelsAll ps ++ r.latentLabels
  | .record r => latentLabelsRow r
termination_by structural t => t

def latentLabelsAll : List Ty → List Label
  | [] => []
  | t :: ts => t.latentLabels ++ latentLabelsAll ts
termination_by structural ts => ts

def latentLabelsRow : Row → List Label
  | ⟨_, fs, _⟩ => latentLabelsFields fs
termination_by structural r => r

def latentLabelsFields : List (Label × Ty) → List Label
  | [] => []
  | (_, t) :: fs => t.latentLabels ++ latentLabelsFields fs
termination_by structural fs => fs

end

mutual

def height : Ty → Nat
  | .var _ => 1
  | .con _ => 1
  | .app h as => max h.height (heightAll as) + 1
  | .list a => a.height + 1
  | .tuple as => heightAll as + 1
  | .fn ps e r => max (heightAll ps) (max (heightEffects e) r.height) + 1
  | .record r => heightRow r + 1
termination_by structural t => t

def heightAll : List Ty → Nat
  | [] => 0
  | t :: ts => max t.height (heightAll ts)
termination_by structural ts => ts

def heightEffects : Option Row → Nat
  | none => 0
  | some r => heightRow r
termination_by structural e => e

def heightRow : Row → Nat
  | ⟨_, fs, _⟩ => heightFields fs + 1
termination_by structural r => r

def heightFields : List (Label × Ty) → Nat
  | [] => 0
  | (_, t) :: fs => max t.height (heightFields fs)
termination_by structural fs => fs

end

theorem occurrencesAll_eq (ts : List Ty) : occurrencesAll ts = ts.flatMap occurrences := by
  induction ts with
  | nil => rfl
  | cons t ts ih => simp [occurrencesAll, ih]

theorem occurrencesFields_eq (fs : List (Label × Ty)) :
    occurrencesFields fs = fs.flatMap fun f => f.2.occurrences := by
  induction fs with
  | nil => rfl
  | cons f fs ih => simp [occurrencesFields, ih]

theorem latentLabelsAll_eq (ts : List Ty) : latentLabelsAll ts = ts.flatMap latentLabels := by
  induction ts with
  | nil => rfl
  | cons t ts ih => simp [latentLabelsAll, ih]

theorem latentLabelsFields_eq (fs : List (Label × Ty)) :
    latentLabelsFields fs = fs.flatMap fun f => f.2.latentLabels := by
  induction fs with
  | nil => rfl
  | cons f fs ih => simp [latentLabelsFields, ih]

mutual

def collectTypeVars : Ty → OrderedSet TypeVarId → OrderedSet TypeVarId
  | .var v, vars => vars.insert v.id
  | .con _, vars => vars
  | .app h as, vars => collectTypeVarsAll as (h.collectTypeVars vars)
  | .list a, vars => a.collectTypeVars vars
  | .tuple as, vars => collectTypeVarsAll as vars
  | .fn ps e r, vars => r.collectTypeVars (collectTypeVarsEffects e (collectTypeVarsAll ps vars))
  | .record r, vars => collectTypeVarsRow r vars
termination_by structural t => t

def collectTypeVarsAll : List Ty → OrderedSet TypeVarId → OrderedSet TypeVarId
  | [], vars => vars
  | t :: ts, vars => collectTypeVarsAll ts (t.collectTypeVars vars)
termination_by structural ts => ts

def collectTypeVarsEffects : Option Row → OrderedSet TypeVarId → OrderedSet TypeVarId
  | none, vars => vars
  | some r, vars => collectTypeVarsRow r vars
termination_by structural e => e

def collectTypeVarsRow : Row → OrderedSet TypeVarId → OrderedSet TypeVarId
  | ⟨_, fs, _⟩, vars => collectTypeVarsFields fs vars
termination_by structural r => r

def collectTypeVarsFields : List (Label × Ty) → OrderedSet TypeVarId → OrderedSet TypeVarId
  | [], vars => vars
  | (_, t) :: fs, vars => collectTypeVarsFields fs (t.collectTypeVars vars)
termination_by structural fs => fs

end

mutual

def collectRowVars : Ty → OrderedSet RowVarId → OrderedSet RowVarId
  | .var _, vars => vars
  | .con _, vars => vars
  | .app h as, vars => collectRowVarsAll as (h.collectRowVars vars)
  | .list a, vars => a.collectRowVars vars
  | .tuple as, vars => collectRowVarsAll as vars
  | .fn ps e r, vars => r.collectRowVars (collectRowVarsEffects e (collectRowVarsAll ps vars))
  | .record r, vars => collectRowVarsRow r vars
termination_by structural t => t

def collectRowVarsAll : List Ty → OrderedSet RowVarId → OrderedSet RowVarId
  | [], vars => vars
  | t :: ts, vars => collectRowVarsAll ts (t.collectRowVars vars)
termination_by structural ts => ts

def collectRowVarsEffects : Option Row → OrderedSet RowVarId → OrderedSet RowVarId
  | none, vars => vars
  | some r, vars => collectRowVarsRow r vars
termination_by structural e => e

def collectRowVarsRow : Row → OrderedSet RowVarId → OrderedSet RowVarId
  | ⟨_, fs, rest⟩, vars =>
      let vars := collectRowVarsFields fs vars
      match rest with
      | none => vars
      | some r => vars.insert r
termination_by structural r => r

def collectRowVarsFields : List (Label × Ty) → OrderedSet RowVarId → OrderedSet RowVarId
  | [], vars => vars
  | (_, t) :: fs, vars => collectRowVarsFields fs (t.collectRowVars vars)
termination_by structural fs => fs

end

structure VarKinds where
  types : OrderedMap TypeVarId Kind
  rows : OrderedMap RowVarId Kind

mutual

def collectKinds : Ty → VarKinds → VarKinds
  | .var v, kinds => { kinds with types := kinds.types.insert v.id v.kind }
  | .con _, kinds => kinds
  | .app h as, kinds => collectKindsAll as (h.collectKinds kinds)
  | .list a, kinds => a.collectKinds kinds
  | .tuple as, kinds => collectKindsAll as kinds
  | .fn ps e r, kinds => r.collectKinds (collectKindsEffects e (collectKindsAll ps kinds))
  | .record r, kinds => collectKindsRow r kinds
termination_by structural t => t

def collectKindsAll : List Ty → VarKinds → VarKinds
  | [], kinds => kinds
  | t :: ts, kinds => collectKindsAll ts (t.collectKinds kinds)
termination_by structural ts => ts

def collectKindsEffects : Option Row → VarKinds → VarKinds
  | none, kinds => kinds
  | some r, kinds => collectKindsRow r kinds
termination_by structural e => e

def collectKindsRow : Row → VarKinds → VarKinds
  | ⟨k, fs, rest⟩, kinds =>
      let kinds := collectKindsFields fs kinds
      match rest with
      | none => kinds
      | some r => { kinds with rows := kinds.rows.insert r k }
termination_by structural r => r

def collectKindsFields : List (Label × Ty) → VarKinds → VarKinds
  | [], kinds => kinds
  | (_, t) :: fs, kinds => collectKindsFields fs (t.collectKinds kinds)
termination_by structural fs => fs

end

mutual

def countRowVar : Ty → RowVarId → Nat
  | .var _, _ => 0
  | .con _, _ => 0
  | .app h as, r => h.countRowVar r + countRowVarAll as r
  | .list a, r => a.countRowVar r
  | .tuple as, r => countRowVarAll as r
  | .fn ps e result, r => countRowVarEffects e r + countRowVarAll ps r + result.countRowVar r
  | .record row, r => countRowVarRow row r
termination_by structural t => t

def countRowVarAll : List Ty → RowVarId → Nat
  | [], _ => 0
  | t :: ts, r => t.countRowVar r + countRowVarAll ts r
termination_by structural ts => ts

def countRowVarEffects : Option Row → RowVarId → Nat
  | none, _ => 0
  | some row, r => countRowVarRow row r
termination_by structural e => e

def countRowVarRow : Row → RowVarId → Nat
  | ⟨_, fs, rest⟩, r => (if rest = some r then 1 else 0) + countRowVarFields fs r
termination_by structural row => row

def countRowVarFields : List (Label × Ty) → RowVarId → Nat
  | [], _ => 0
  | (_, t) :: fs, r => t.countRowVar r + countRowVarFields fs r
termination_by structural fs => fs

end

def typeVars (t : Ty) : OrderedSet TypeVarId :=
  t.collectTypeVars []

def rowVars (t : Ty) : OrderedSet RowVarId :=
  t.collectRowVars []

def typeVarKinds (t : Ty) : OrderedMap TypeVarId Kind :=
  (t.collectKinds ⟨[], []⟩).types

def rowVarKinds (t : Ty) : OrderedMap RowVarId Kind :=
  (t.collectKinds ⟨[], []⟩).rows

def isGround (t : Ty) : Bool :=
  t.typeVars.isEmpty && t.rowVars.isEmpty

end Ty

namespace Row

def occurrences (r : Row) : List Occurrence :=
  Ty.occurrencesRow r

def height (r : Row) : Nat :=
  Ty.heightRow r

def typeVars (r : Row) : OrderedSet TypeVarId :=
  Ty.collectTypeVarsRow r []

def rowVars (r : Row) : OrderedSet RowVarId :=
  Ty.collectRowVarsRow r []

end Row

end RowTyping
