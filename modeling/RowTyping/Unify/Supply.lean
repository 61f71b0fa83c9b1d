import RowTyping.Ty.Basic

namespace RowTyping

structure Supply where
  nextType : TypeVarId
  nextRow : RowVarId
  deriving DecidableEq, Repr, Inhabited

namespace Supply

def freshType (s : Supply) : TypeVarId × Supply :=
  (s.nextType, { s with nextType := s.nextType + 1 })

def freshRow (s : Supply) : RowVarId × Supply :=
  (s.nextRow, { s with nextRow := s.nextRow + 1 })

end Supply

structure Counters where
  nextType : TypeVarId
  nextRow : RowVarId
  deriving DecidableEq, Repr, Inhabited

namespace Counters

def blockSize : Nat := 1024

def allocate (c : Counters) : Supply × Counters :=
  (⟨c.nextType, c.nextRow⟩, ⟨c.nextType + blockSize, c.nextRow + blockSize⟩)

end Counters

end RowTyping
