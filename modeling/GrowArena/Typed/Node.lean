import GrowArena.Chain.Basic

/-!
A node of a typed array: slots that are claimed in order and written in any order. What is published
is the longest run of written slots from the front.
-/

namespace GrowArena

structure TypedNode (α : Type) where
  capacity : Nat
  /-- The claims so far. A claim in vain takes the counter past the capacity, until it is pinned. -/
  claims : Nat := 0
  /-- The claimed slots; a slot is `none` until it is written. -/
  slots : Array (Option α) := #[]
  published : Nat := 0
  deriving DecidableEq, Repr

namespace TypedNode

variable {α : Type}

def HasRoom (n : TypedNode α) : Prop := n.claims < n.capacity

instance (n : TypedNode α) : Decidable n.HasRoom := inferInstanceAs (Decidable (_ < _))

/-- Counts a claim. The next slot goes with it, unless all slots are claimed. -/
def claim (n : TypedNode α) : TypedNode α :=
  { n with
    claims := n.claims + 1
    slots := if n.HasRoom then n.slots.push none else n.slots }

/-- Takes the counter back to the capacity. -/
def pin (n : TypedNode α) : TypedNode α :=
  { n with claims := n.capacity }

/-- The end of the run of written slots from a position on. -/
def writtenFrom (slots : Array (Option α)) (position : Nat) : Nat :=
  match _h : slots[position]? with
  | some (some _) => writtenFrom slots (position + 1)
  | _ => position
termination_by slots.size - position
decreasing_by
  obtain ⟨_, _⟩ := Array.getElem?_eq_some_iff.mp _h
  omega

/-- Publishes what is written behind the slots published so far. -/
def publish (n : TypedNode α) : TypedNode α :=
  { n with published := writtenFrom n.slots n.published }

def write (n : TypedNode α) (slot : Nat) (value : α) : TypedNode α :=
  { n with slots := n.slots.setIfInBounds slot (some value) }.publish

def value? (n : TypedNode α) (position : Nat) : Option α :=
  n.slots[position]?.join

def read? (n : TypedNode α) (position stop : Nat) : Option (α × Nat) :=
  if position < stop then (n.value? position).map (·, 1) else none

instance : Segment (TypedNode α) α where
  capacity := capacity
  published := published
  read? := read?
  read?_self := by simp [read?]

@[simp]
theorem segment_published (n : TypedNode α) : Segment.published n = n.published := rfl

@[simp]
theorem segment_read? (n : TypedNode α) (position stop : Nat) :
    Segment.read? n position stop = n.read? position stop := rfl

def visible (n : TypedNode α) : List α :=
  (n.slots.toList.take n.published).filterMap id

def last? (n : TypedNode α) : Option α :=
  if n.published = 0 then none else n.value? (n.published - 1)

end TypedNode

end GrowArena
