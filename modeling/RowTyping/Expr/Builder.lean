import RowTyping.Expr.Basic

namespace RowTyping

structure Builder where
  next : NodeId
  signatures : EffectSignatures
  deriving DecidableEq, Repr, Inhabited

structure NodeTag where
  number? : Option NodeId
  effects? : Option (List String)
  deriving DecidableEq, Repr, Inhabited

namespace Builder

def empty : Builder :=
  ⟨0, []⟩

def declare (b : Builder) (id : NodeId) : Option (List String) → Builder
  | none => b
  | some names => { b with signatures := b.signatures.insert id names }

variable {m : Type → Type} [Monad m] {α β γ δ : Type}

def fresh : StateT Builder m NodeId :=
  modifyGet fun b => (b.next, { b with next := b.next + 1 })

def leaf (tag : NodeTag) : StateT Builder m NodeId := do
  let id := tag.number?.getD (← fresh)
  modify fun b => b.declare id tag.effects?
  return id

def node1 (tag : NodeTag) (make : NodeId → α → β) (a : StateT Builder m α) : StateT Builder m β := do
  let a ← a
  return make (← leaf tag) a

def node2 (tag : NodeTag) (make : NodeId → α → β → γ) (a : StateT Builder m α) (b : StateT Builder m β) :
    StateT Builder m γ :=
  node1 tag (fun id (a, b) => make id a b) do return (← a, ← b)

def node3 (tag : NodeTag) (make : NodeId → α → β → γ → δ) (a : StateT Builder m α) (b : StateT Builder m β)
    (c : StateT Builder m γ) : StateT Builder m δ :=
  node2 tag (fun id a (b, c) => make id a b c) a do return (← b, ← c)

def call (tag : NodeTag) (name : String) (args : StateT Builder m (List Expr)) : StateT Builder m Expr :=
  node2 tag (fun id args func => .app id func args) args do return .var (← fresh) name

end Builder

end RowTyping
