namespace RowTyping

inductive BinaryOp where
  | add
  | sub
  | mul
  | div
  | mod
  | concat
  | eq
  | neq
  | lt
  | lte
  | gt
  | gte
  | and
  | or
  deriving DecidableEq, Repr, Inhabited

namespace BinaryOp

def all : List BinaryOp :=
  [.add, .sub, .mul, .div, .mod, .concat, .eq, .neq, .lt, .lte, .gt, .gte, .and, .or]

def symbol : BinaryOp → String
  | .add => "+"
  | .sub => "-"
  | .mul => "*"
  | .div => "/"
  | .mod => "%"
  | .concat => "++"
  | .eq => "=="
  | .neq => "!="
  | .lt => "<"
  | .lte => "<="
  | .gt => ">"
  | .gte => ">="
  | .and => "&&"
  | .or => "||"

def isArithmetic : BinaryOp → Bool
  | .add | .sub | .mul | .div | .mod => true
  | _ => false

def isComparison : BinaryOp → Bool
  | .lt | .lte | .gt | .gte => true
  | _ => false

def isEquality : BinaryOp → Bool
  | .eq | .neq => true
  | _ => false

def isLogical : BinaryOp → Bool
  | .and | .or => true
  | _ => false

def method? : BinaryOp → Option String
  | .add => some "add"
  | .sub => some "sub"
  | .mul => some "mul"
  | .div => some "div"
  | .mod => some "mod"
  | .eq => some "eq"
  | .neq => some "neq"
  | .lt => some "lt"
  | .lte => some "lte"
  | .gt => some "gt"
  | .gte => some "gte"
  | .concat | .and | .or => none

theorem mem_all (op : BinaryOp) : op ∈ all := by
  cases op <;> decide

theorem method?_isSome (op : BinaryOp) :
    op.method?.isSome = (op.isArithmetic || op.isComparison || op.isEquality) := by
  cases op <;> rfl

end BinaryOp

inductive UnaryOp where
  | neg
  | not
  deriving DecidableEq, Repr, Inhabited

namespace UnaryOp

def all : List UnaryOp :=
  [.neg, .not]

def symbol : UnaryOp → String
  | .neg => "-"
  | .not => "!"

def method : UnaryOp → String
  | .neg => "neg"
  | .not => "not"

end UnaryOp

end RowTyping
