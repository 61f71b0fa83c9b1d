import RowTyping.Kind
import RowTyping.OrderedMap
import RowTyping.OrderedSet

namespace RowTyping

abbrev TypeVarId := Nat

abbrev RowVarId := Nat

abbrev Label := String

structure TypeVar where
  id : TypeVarId
  kind : Kind
  deriving DecidableEq, Repr, Inhabited

def TypeVar.star (id : TypeVarId) : TypeVar :=
  ⟨id, .star⟩

mutual

/-- A function without an effect row is pure, which is not the same as having the empty closed row. -/
inductive Ty where
  | var (v : TypeVar)
  | con (name : String)
  | app (head : Ty) (args : List Ty)
  | list (elem : Ty)
  | tuple (elems : List Ty)
  | fn (params : List Ty) (effects : Option Row) (result : Ty)
  | record (row : Row)

structure Row where
  kind : Kind
  fields : List (Label × Ty)
  rest : Option RowVarId

end

/-- The latent effects of a function; `none` is purity. -/
abbrev Effects := Option Row

namespace Ty

def ofVar (id : TypeVarId) : Ty :=
  .var (.star id)

def int : Ty := .con "Int"

def float : Ty := .con "Float"

def string : Ty := .con "String"

def bool : Ty := .con "Bool"

def unit : Ty := .con "Unit"

def bytes : Ty := .con "Bytes"

instance : Inhabited Ty := ⟨unit⟩

def kind : Ty → Kind
  | .var v => v.kind
  | _ => .star

def isCon (t : Ty) (name : String) : Bool :=
  match t with
  | .con n => n == name
  | _ => false

def isVar : Ty → Bool
  | .var _ => true
  | _ => false

def head? : Ty → Option String
  | .var _ => none
  | .con name => some name
  | .app h _ => h.head?
  | .list _ => some "List"
  | .tuple _ => some "Tuple"
  | .fn _ _ _ => some "Function"
  | .record _ => some "Record"

def arguments : Ty → List Ty
  | .app _ args => args
  | .tuple elems => elems
  | .list elem => [elem]
  | _ => []

end Ty

namespace Row

instance : Inhabited Row := ⟨⟨.recordRow, [], none⟩⟩

def closedRecord (fields : List (Label × Ty)) : Row :=
  ⟨.recordRow, OrderedMap.ofList fields, none⟩

def openRecord (fields : List (Label × Ty)) (rest : RowVarId) : Row :=
  ⟨.recordRow, OrderedMap.ofList fields, some rest⟩

def closedEffects (labels : List Label) : Row :=
  ⟨.effectRow, OrderedMap.ofList (labels.map fun l => (l, .unit)), none⟩

def openEffects (labels : List Label) (rest : RowVarId) : Row :=
  { closedEffects labels with rest := some rest }

def isOpen (r : Row) : Bool :=
  r.rest.isSome

def isClosed (r : Row) : Bool :=
  r.rest.isNone

def isEffect (r : Row) : Bool :=
  r.kind.isEffectRow

def labels (r : Row) : List Label :=
  OrderedMap.keys r.fields

def get? (r : Row) (l : Label) : Option Ty :=
  OrderedMap.find? r.fields l

def has (r : Row) (l : Label) : Bool :=
  OrderedMap.contains r.fields l

def isEmpty (r : Row) : Bool :=
  r.fields.isEmpty

end Row

namespace Effects

def closed (labels : List Label) : Effects :=
  some (.closedEffects labels)

def opened (labels : List Label) (rest : RowVarId) : Effects :=
  some (.openEffects labels rest)

def isPure (e : Effects) : Bool :=
  e.isNone

def toRow (e : Effects) : Row :=
  e.getD (.closedEffects [])

def labels : Effects → List Label
  | none => []
  | some r => r.labels

def tail (e : Effects) : Option RowVarId :=
  e.bind Row.rest

def has (e : Effects) (l : Label) : Bool :=
  e.any (·.has l)

end Effects

namespace Ty

mutual

def same : Ty → Ty → Bool
  | .var v, u => match u with
    | .var w => v == w
    | _ => false
  | .con a, u => match u with
    | .con b => a == b
    | _ => false
  | .app h as, u => match u with
    | .app h' as' => h.same h' && sameAll as as'
    | _ => false
  | .list a, u => match u with
    | .list b => a.same b
    | _ => false
  | .tuple as, u => match u with
    | .tuple bs => sameAll as bs
    | _ => false
  | .fn ps e r, u => match u with
    | .fn ps' e' r' => sameAll ps ps' && sameEffects e e' && r.same r'
    | _ => false
  | .record r, u => match u with
    | .record r' => sameRow r r'
    | _ => false
termination_by structural t => t

def sameAll : List Ty → List Ty → Bool
  | [], [] => true
  | a :: as, b :: bs => a.same b && sameAll as bs
  | _, _ => false
termination_by structural ts => ts

def sameEffects : Option Row → Option Row → Bool
  | none, none => true
  | some r, some r' => sameRow r r'
  | _, _ => false
termination_by structural e => e

def sameRow : Row → Row → Bool
  | ⟨k, fs, rest⟩, r => k == r.kind && sameFields fs r.fields && rest == r.rest
termination_by structural r => r

def sameFields : List (Label × Ty) → List (Label × Ty) → Bool
  | [], [] => true
  | (l, t) :: fs, (l', t') :: fs' => l == l' && t.same t' && sameFields fs fs'
  | _, _ => false
termination_by structural fs => fs

end

mutual

theorem same_iff : ∀ (t u : Ty), t.same u = true ↔ t = u
  | .var v, u => by cases u <;> simp [same]
  | .con a, u => by cases u <;> simp [same]
  | .app h as, u => by cases u <;> simp [same, same_iff h, sameAll_iff as]
  | .list a, u => by cases u <;> simp [same, same_iff a]
  | .tuple as, u => by cases u <;> simp [same, sameAll_iff as]
  | .fn ps e r, u => by
      cases u <;> simp [same, same_iff r, sameAll_iff ps, sameEffects_iff e, and_assoc]
  | .record r, u => by cases u <;> simp [same, sameRow_iff r]

theorem sameAll_iff : ∀ (ts us : List Ty), sameAll ts us = true ↔ ts = us
  | [], us => by cases us <;> simp [sameAll]
  | t :: ts, us => by cases us <;> simp [sameAll, same_iff t, sameAll_iff ts]

theorem sameEffects_iff : ∀ (e e' : Option Row), sameEffects e e' = true ↔ e = e'
  | none, e' => by cases e' <;> simp [sameEffects]
  | some r, e' => by cases e' <;> simp [sameEffects, sameRow_iff r]

theorem sameRow_iff : ∀ (r r' : Row), sameRow r r' = true ↔ r = r'
  | ⟨k, fs, rest⟩, r' => by
      obtain ⟨k', fs', rest'⟩ := r'
      simp [sameRow, sameFields_iff fs, and_assoc]

theorem sameFields_iff : ∀ (fs fs' : List (Label × Ty)), sameFields fs fs' = true ↔ fs = fs'
  | [], fs' => by cases fs' <;> simp [sameFields]
  | (l, t) :: fs, fs' => by
      cases fs' with
      | nil => simp [sameFields]
      | cons f fs' => simp [sameFields, same_iff t, sameFields_iff fs, Prod.ext_iff, and_assoc]

end

end Ty

instance : DecidableEq Ty := fun _ _ =>
  decidable_of_iff _ (Ty.same_iff _ _)

instance : DecidableEq Row := fun _ _ =>
  decidable_of_iff _ (Ty.sameRow_iff _ _)

end RowTyping
