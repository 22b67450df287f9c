/-!
What sizes and addresses can express.
-/

namespace GrowArena

/-- The greatest number of 64 bits: no size or address is beyond it. -/
def wordMax : Nat := 0xFFFFFFFFFFFFFFFF

/-- The sum, if it is no more than 64 bits can express. -/
def checkedAdd (m n : Nat) : Option Nat :=
  if m + n ≤ wordMax then some (m + n) else none

/-- The largest slab that a source can be asked for: it ends, rounded up to 8 bytes, below the
middle of the address range. -/
def slabMax : Nat := 0x7FFFFFFFFFFFFFF8

end GrowArena
