import GrowArena.Binary64
import GrowArena.Fault
import GrowArena.Limits

/-!
How an array grows: the capacity of its first node, and the factor by which each further node is
larger than the one before it.
-/

namespace GrowArena

structure Growth where
  initial : Nat := 1
  factor : Binary64 := .threeHalves
  deriving DecidableEq, Repr

namespace Growth

def standard : Growth := {}

/-- Settings under which every node has room: checked before an array is made. -/
def validate (g : Growth) : Except Fault Unit :=
  if g.initial = 0 then .error (.invalidSetting "initial_capacity must be non-zero")
  else if g.factor.FiniteAtLeastOne then .ok ()
  else .error (.invalidSetting "growth_factor must be finite and at least 1.0")

/-- The capacity of the node after one of capacity `previous`. -/
def next (g : Growth) (previous : Nat) : Nat :=
  max 1 (g.factor.mulFloor wordMax previous)

/-- Agreement of both settings, the factors as numbers: no settings with a NaN agree. -/
def agrees (g h : Growth) : Bool :=
  g.initial == h.initial && g.factor.numEq h.factor

theorem one_le_next (g : Growth) (previous : Nat) : 1 ≤ g.next previous :=
  Nat.le_max_left ..

end Growth

end GrowArena
