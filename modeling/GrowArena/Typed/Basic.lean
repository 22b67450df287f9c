import GrowArena.Arena.Resident
import GrowArena.Chain.Cursor
import GrowArena.Growth
import GrowArena.Typed.Node

/-!
Typed arrays: append-only sequences whose elements all have the same footprint. A push claims a slot
of the tail, appending a node if the tail is full, and then completes the slot by writing it; the
two halves may lie apart, with other pushes between them.
-/

namespace GrowArena

structure TypedArray (α : Type) where
  footprint : Footprint
  growth : Growth
  chain : Chain (TypedNode α)

namespace TypedArray

variable {σ α : Type}

/-- A claimed slot that is still to be written. -/
structure Ticket where
  node : Nat
  slot : Nat
  deriving DecidableEq, Repr

/-- The parts of a node: its elements, a mark for each of them, and the node itself. -/
def nodeParts (f : Footprint) (capacity : Nat) : List Request :=
  [{ bytes := capacity * f.size, alignment := f.alignment }, { bytes := capacity },
    nodeRecord]

def nextTicket (a : TypedArray α) : Ticket where
  node := a.chain.last
  slot := a.chain.tail.claims

def claimTail (a : TypedArray α) : TypedArray α :=
  { a with chain := a.chain.modify a.chain.last TypedNode.claim }

/-- Takes the counter of a full tail back. -/
def pinTail (a : TypedArray α) : TypedArray α :=
  { a with chain := a.chain.modify a.chain.last TypedNode.pin }

def append (a : TypedArray α) (capacity : Nat) : TypedArray α :=
  { a with chain := a.chain.append { capacity } }

/-- Writes the claimed slot and publishes what can be published. -/
def complete (a : TypedArray α) (t : Ticket) (value : α) : TypedArray α :=
  { a with chain := a.chain.modify t.node (·.write t.slot value) }

theorem hasRoom_append (a : TypedArray α) {capacity : Nat} (h : 0 < capacity) :
    (a.append capacity).chain.tail.HasRoom := by
  simpa [append, TypedNode.HasRoom] using h

variable [SlabSource σ]

def allocateNode (f : Footprint) (capacity : Nat) : ArenaM σ Unit :=
  if wordMax < capacity * f.size then throw .elementBytes
  else Store.allocateAll (nodeParts f capacity)

def create (f : Footprint) (g : Growth) : ArenaM σ (TypedArray α) := fun s =>
  match g.validate with
  | .error fault => .error fault s
  | .ok () =>
      match allocateNode f g.initial s with
      | .ok () s => .ok ⟨f, g, .singleton { capacity := g.initial }⟩ s
      | .error fault s => .error fault s

/-- Takes the counter of a full tail back and appends a node. -/
def grow : ResidentM σ (TypedArray α) Unit := fun (s, a) =>
  let capacity := a.growth.next a.chain.tail.capacity
  match allocateNode a.footprint capacity s with
  | .ok () s => .ok () (s.record (.typedNodeAppended capacity), a.pinTail.append capacity)
  | .error fault s => .error fault (s, a.pinTail)

theorem hasRoom_of_grow {state state' : Store σ × TypedArray α} {u : Unit}
    (h : grow state = .ok u state') : state'.2.chain.tail.HasRoom := by
  simp only [grow] at h
  split at h
  · simp only [EStateM.Result.ok.injEq] at h
    obtain ⟨_, rfl⟩ := h
    exact hasRoom_append _ (Growth.one_le_next ..)
  · simp at h

/-- Claims a slot of the tail. If all of them are claimed, a node is appended and asked in turn. -/
def claim (state : Store σ × TypedArray α) :
    EStateM.Result Fault (Store σ × TypedArray α) Ticket :=
  let claimed := (state.1, state.2.claimTail)
  if _hroom : state.2.chain.tail.HasRoom then .ok state.2.nextTicket claimed
  else
    match _h : grow claimed with
    | .ok () state => claim state
    | .error fault state => .error fault state
termination_by if state.2.chain.tail.HasRoom then 0 else 1
decreasing_by simp [_hroom, hasRoom_of_grow _h]

def push (value : α) : ResidentM σ (TypedArray α) Unit := fun state =>
  match claim state with
  | .ok t (s, a) => .ok () (s, a.complete t value)
  | .error fault state => .error fault state

/-- Appends values up to the first one that is refused. -/
def pushAll : List α → EStateM (Refusal α) (Store σ × TypedArray α) Unit :=
  pushEach push

omit [SlabSource σ]

/-- The value `remaining` places into the given nodes, or else the places that are left behind
them. -/
def walk : List (TypedNode α) → Nat → Except Nat α
  | [], remaining => .error remaining
  | n :: ns, remaining =>
      match n.read? remaining n.published with
      | some (value, _) => .ok value
      | none => walk ns (remaining - n.published)

def get (a : TypedArray α) (index : Nat) : Except Fault α :=
  match walk a.chain.nodes.toList index with
  | .ok value => .ok value
  | .error remaining => .error (.indexOutOfBounds index (index - remaining))

/-- The last published value: that of the tail, or of the last node that has one. -/
def back (a : TypedArray α) : Except Fault α :=
  match a.chain.tail.last? with
  | some value => .ok value
  | none =>
      match (a.chain.nodes.toList.filterMap TypedNode.last?).getLast? with
      | some value => .ok value
      | none => .error .empty

def size (a : TypedArray α) : Nat := a.chain.extent

/-- The order in which the values are destroyed with the array: node after node from the head, each
node from its highest slot down. -/
def destructionOrder (a : TypedArray α) : List α :=
  a.chain.nodes.toList.flatMap (·.visible.reverse)

end TypedArray

end GrowArena
