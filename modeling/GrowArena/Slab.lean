/-!
Where memory comes from. A `SlabSource` hands out slabs of memory and takes them back. `LinearHeap`
is a source that never reuses an address and refuses what would exceed a limit on the bytes out.
-/

namespace GrowArena

structure Slab where
  start : Nat
  bytes : Nat
  deriving DecidableEq, Repr

/-- Anything that hands out slabs: `acquire` gives the start of a new slab, or refuses. -/
class SlabSource (σ : Type) where
  acquire : σ → Nat → Option (Nat × σ)
  release : σ → Slab → σ

def heapBase : Nat := 0x100000000000

structure LinearHeap where
  /-- No slab starts below this address any more. -/
  cursor : Nat := heapBase
  /-- The bytes handed out and not yet taken back. -/
  live : Nat := 0
  limit : Nat := 16777216
  deriving DecidableEq, Repr

namespace LinearHeap

/-- Every slab starts at a multiple of this. -/
def grain : Nat := 16

def roundUp (address : Nat) : Nat :=
  (address + (grain - 1)) / grain * grain

def acquire (h : LinearHeap) (bytes : Nat) : Option (Nat × LinearHeap) :=
  if h.live + bytes ≤ h.limit then
    let start := roundUp h.cursor
    some (start, { h with cursor := start + bytes, live := h.live + bytes })
  else
    none

def release (h : LinearHeap) (slab : Slab) : LinearHeap :=
  { h with live := h.live - slab.bytes }

instance : SlabSource LinearHeap where
  acquire := acquire
  release := release

end LinearHeap

end GrowArena
