import GrowArena.Arena.Resident
import GrowArena.Chain.Cursor
import GrowArena.Growth
import GrowArena.Packed.Node

/-!
Packed arrays: append-only sequences of 32-bit words kept in base-128 code. A push reserves the
bytes of its code in the tail, appending a node if the tail is short of free bytes, stores them one
by one, and finishes the reservation; other pushes may come between these steps.
-/

namespace GrowArena

structure PackedArray where
  growth : Growth
  chain : Chain PackedNode

namespace PackedArray

variable {σ : Type}

structure Spot where
  node : Nat
  offset : Nat
  deriving DecidableEq, Repr

/-- The bytes that it takes to have a bit for each byte of a node. -/
def readyBytes (capacity : Nat) : Nat := (capacity + 7) / 8

theorem div_lt_readyBytes {offset capacity : Nat} (h : offset < capacity) :
    offset / 8 < readyBytes capacity := by
  unfold readyBytes
  omega

/-- The parts of a node: its bytes, a bit for each of them, and the node itself. -/
def nodeParts (capacity : Nat) : List Request :=
  [{ bytes := capacity }, { bytes := readyBytes capacity }, nodeRecord]

/-- A capacity that leaves room for at least one code. -/
def roomy (capacity : Nat) : Nat := max capacity PackedNode.margin

def nextSpot (a : PackedArray) : Spot where
  node := a.chain.last
  offset := a.chain.tail.cells.size

def takeBytes (a : PackedArray) (width : Nat) : PackedArray :=
  { a with chain := a.chain.modify a.chain.last (·.reserve width) }

def append (a : PackedArray) (capacity : Nat) : PackedArray :=
  { a with chain := a.chain.append { capacity } }

def store (a : PackedArray) (spot : Spot) (i : Nat) (byte : UInt8) : PackedArray :=
  { a with chain := a.chain.modify spot.node (·.store (spot.offset + i) byte) }

/-- Stores the bytes of a reservation from its byte `i` on. -/
def storeFrom (a : PackedArray) (spot : Spot) (i : Nat) : List UInt8 → PackedArray
  | [] => a
  | byte :: bytes => (a.store spot i byte).storeFrom spot (i + 1) bytes

/-- Marks a reservation as stored and publishes what can be published. -/
def finish (a : PackedArray) (spot : Spot) : PackedArray :=
  { a with chain := a.chain.modify spot.node (·.finish spot.offset) }

theorem hasRoom_append (a : PackedArray) (capacity : Nat) :
    (a.append (roomy capacity)).chain.tail.HasRoom := by
  rw [PackedNode.HasRoom, append, Chain.tail_append]
  exact Nat.le_max_right ..

variable [SlabSource σ]

def allocateNode (capacity : Nat) : ArenaM σ Unit :=
  Store.allocateAll (nodeParts capacity)

def create (g : Growth) : ArenaM σ PackedArray := fun s =>
  match g.validate with
  | .error fault => .error fault s
  | .ok () =>
      let capacity := roomy g.initial
      match allocateNode capacity s with
      | .ok () s => .ok ⟨g, .singleton { capacity }⟩ s
      | .error fault s => .error fault s

def grow : ResidentM σ PackedArray Unit := fun (s, a) =>
  let capacity := roomy (a.growth.next a.chain.tail.capacity)
  match allocateNode capacity s with
  | .ok () s => .ok () (s.record (.packedNodeAppended capacity), a.append capacity)
  | .error fault s => .error fault (s, a)

theorem hasRoom_of_grow {state state' : Store σ × PackedArray} {u : Unit}
    (h : grow state = .ok u state') : state'.2.chain.tail.HasRoom := by
  simp only [grow] at h
  split at h
  · simp only [EStateM.Result.ok.injEq] at h
    obtain ⟨_, rfl⟩ := h
    exact hasRoom_append ..
  · simp at h

/-- Reserves bytes of the tail. If that is short of free bytes, a node is appended and asked in
turn. -/
def reserve (width : Nat) (state : Store σ × PackedArray) :
    EStateM.Result Fault (Store σ × PackedArray) Spot :=
  if _hroom : state.2.chain.tail.HasRoom then
    .ok state.2.nextSpot (state.1, state.2.takeBytes width)
  else
    match _h : grow state with
    | .ok () state => reserve width state
    | .error fault state => .error fault state
termination_by if state.2.chain.tail.HasRoom then 0 else 1
decreasing_by simp [_hroom, hasRoom_of_grow _h]

def push (word : UInt32) : ResidentM σ PackedArray Unit := fun state =>
  let code := Leb128.encode word
  match reserve code.length state with
  | .ok spot (s, a) => .ok () (s, (a.storeFrom spot 0 code).finish spot)
  | .error fault state => .error fault state

/-- Appends words up to the first one that is refused. -/
def pushAll : List UInt32 → EStateM (Refusal UInt32) (Store σ × PackedArray) Unit :=
  pushEach push

omit [SlabSource σ]

def byteSize (a : PackedArray) : Nat := a.chain.extent

end PackedArray

end GrowArena
