import GrowArena.Chain.Basic
import GrowArena.Leb128

/-!
A node of a packed array: bytes that are reserved in order, a code at a time, and stored in any
order. A reservation is marked ready at its first byte when all its bytes are stored. What is
published is the longest run of ready codes from the front.
-/

namespace GrowArena

/-- A reserved byte; `ready` is for the first byte of a code. -/
structure Cell where
  byte : UInt8 := 0
  ready : Bool := false
  deriving DecidableEq, Repr

structure PackedNode where
  capacity : Nat
  cells : Array Cell := #[]
  published : Nat := 0
  deriving DecidableEq, Repr

namespace PackedNode

/-- A node takes a further code only while this many bytes are free, more than any code needs. -/
def margin : Nat := 7

def HasRoom (n : PackedNode) : Prop := margin ≤ n.capacity - n.cells.size

instance (n : PackedNode) : Decidable n.HasRoom := inferInstanceAs (Decidable (_ ≤ _))

def reserve (n : PackedNode) (width : Nat) : PackedNode :=
  { n with cells := n.cells ++ Array.replicate width {} }

def store (n : PackedNode) (position : Nat) (byte : UInt8) : PackedNode :=
  { n with cells := n.cells.modify position ({ · with byte }) }

/-- The byte at a position; it is zero as long as nothing is stored there. -/
def byteAt (n : PackedNode) (position : Nat) : UInt8 :=
  (n.cells[position]?.getD {}).byte

/-- The bytes from a position up to `stop`, as many as a code may have. -/
def window (n : PackedNode) (position stop : Nat) : List UInt8 :=
  (List.range' position (min (stop - position) Leb128.maxWidth)).map n.byteAt

/-- The code at a position, for a reader that stops at `stop`. -/
def read? (n : PackedNode) (position stop : Nat) : Option (UInt32 × Nat) :=
  if position < stop then Leb128.decode? (n.window position stop) else none

instance : Segment PackedNode UInt32 where
  capacity := capacity
  published := published
  read? := read?
  read?_self := by simp [read?]

@[simp]
theorem segment_published (n : PackedNode) : Segment.published n = n.published := rfl

@[simp]
theorem segment_read? (n : PackedNode) (position stop : Nat) :
    Segment.read? n position stop = n.read? position stop := rfl

/-- The end of the run of ready codes from a position on. -/
def readyFrom (n : PackedNode) (position : Nat) : Nat :=
  match _h : n.cells[position]? with
  | none => position
  | some cell =>
      if cell.ready then
        match _hw : Leb128.decode? (n.window position n.capacity) with
        | some (_, width) => readyFrom n (position + width)
        | none => position
      else position
termination_by n.cells.size - position
decreasing_by
  obtain ⟨_, _⟩ := Array.getElem?_eq_some_iff.mp _h
  have := (Leb128.width_of_decode? _hw).1
  omega

def publish (n : PackedNode) : PackedNode :=
  { n with published := n.readyFrom n.published }

/-- Marks the reservation at a position as stored. -/
def finish (n : PackedNode) (position : Nat) : PackedNode :=
  { n with cells := n.cells.modify position ({ · with ready := true }) }.publish

end PackedNode

end GrowArena
