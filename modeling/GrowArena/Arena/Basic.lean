import GrowArena.Fault
import GrowArena.Limits
import GrowArena.Slab

/-!
An arena: a growing chain of chunks out of which byte ranges are handed out from front to back.
This module holds its bookkeeping, which is pure; obtaining chunks is in `GrowArena.Arena.Allocate`.
-/

namespace GrowArena

/-- The bytes between `address` and the next multiple of `boundary`; none for a boundary of 0. -/
def padding (address boundary : Nat) : Nat :=
  if boundary ≤ 1 then 0
  else if address % boundary = 0 then 0
  else boundary - address % boundary

theorem padding_le (address boundary : Nat) : padding address boundary ≤ boundary - 1 := by
  unfold padding
  split
  · omega
  · split <;> omega

/-- A number of bytes at an address that is a multiple of `alignment`. -/
structure Request where
  bytes : Nat
  alignment : Nat := 1
  deriving DecidableEq, Repr

/-- A request together with the address that was given for it. -/
structure Grant where
  address : Nat
  request : Request
  deriving DecidableEq, Repr

namespace Grant

def stop (g : Grant) : Nat := g.address + g.request.bytes

def Aligned (g : Grant) : Prop := g.address % g.request.alignment = 0

def Disjoint (g h : Grant) : Prop :=
  g.request.bytes = 0 ∨ h.request.bytes = 0 ∨ g.stop ≤ h.address ∨ h.stop ≤ g.address

instance (g : Grant) : Decidable g.Aligned := inferInstanceAs (Decidable (_ = _))

instance (g h : Grant) : Decidable (g.Disjoint h) :=
  inferInstanceAs (Decidable (_ ∨ _ ∨ _ ∨ _))

end Grant

/-- Where a request would go, and the cursor of the chunk after that. -/
structure Placement where
  address : Nat
  cursor : Nat
  deriving DecidableEq, Repr

/-- A slab in use: a header, then `capacity` bytes that are handed out up to `cursor`. -/
structure Chunk where
  start : Nat
  capacity : Nat
  cursor : Nat := 0
  deriving DecidableEq, Repr

namespace Chunk

/-- The bytes at the front of a slab that are never handed out. -/
def header : Nat := 40

def bytes (c : Chunk) : Nat := header + c.capacity

def slab (c : Chunk) : Slab := { start := c.start, bytes := c.bytes }

/-- The address of the first byte that can be handed out. -/
def data (c : Chunk) : Nat := c.start + header

/-- The least offset at or past the cursor whose address is aligned. -/
def offset (c : Chunk) (alignment : Nat) : Nat :=
  c.cursor + padding (c.data + c.cursor) alignment

def HasRoom (c : Chunk) (r : Request) : Prop :=
  c.offset r.alignment + r.bytes ≤ c.capacity

instance (c : Chunk) (r : Request) : Decidable (c.HasRoom r) :=
  inferInstanceAs (Decidable (_ ≤ _))

def stop? (c : Chunk) (r : Request) : Option Nat :=
  (checkedAdd c.cursor (padding (c.data + c.cursor) r.alignment)).bind (checkedAdd · r.bytes)

def place? (c : Chunk) (r : Request) : Option Placement :=
  match c.stop? r with
  | none => none
  | some stop =>
      if stop ≤ c.capacity then
        some { address := c.data + c.offset r.alignment, cursor := stop }
      else none

theorem stop?_eq_some_iff {c : Chunk} {r : Request} {stop : Nat} :
    c.stop? r = some stop ↔ stop = c.offset r.alignment + r.bytes ∧ stop ≤ wordMax := by
  simp only [stop?, checkedAdd, offset, Option.bind_eq_some_iff, Option.ite_none_right_eq_some,
    Option.some.injEq]
  constructor
  · rintro ⟨_, ⟨_, rfl⟩, _, rfl⟩
    omega
  · rintro ⟨rfl, h⟩
    exact ⟨_, ⟨by omega, rfl⟩, h, rfl⟩

/-- Only a request that fits gets a place, and the place is at the least aligned offset. -/
theorem place?_eq_some_iff {c : Chunk} {r : Request} {p : Placement} :
    c.place? r = some p ↔
      c.HasRoom r ∧ c.offset r.alignment + r.bytes ≤ wordMax ∧
        p = { address := c.data + c.offset r.alignment
              cursor := c.offset r.alignment + r.bytes } := by
  unfold place? HasRoom
  cases h : c.stop? r with
  | none =>
      simp only [reduceCtorEq, false_iff, not_and]
      intro _ hword
      have := stop?_eq_some_iff.mpr ⟨rfl, hword⟩
      simp [h] at this
  | some stop =>
      obtain ⟨rfl, hword⟩ := stop?_eq_some_iff.mp h
      simp [hword, eq_comm]

/-- In a chunk whose capacity is a number of 64 bits, no sum is too large for a request that
fits. -/
theorem isSome_place?_of_hasRoom {c : Chunk} {r : Request} (hc : c.capacity ≤ wordMax)
    (h : c.HasRoom r) : (c.place? r).isSome :=
  Option.isSome_of_eq_some (place?_eq_some_iff.mpr ⟨h, Nat.le_trans h hc, rfl⟩)

/-- A chunk made for a request has room for it wherever its slab lies. -/
theorem hasRoom_of_le {start capacity : Nat} {r : Request}
    (h : r.bytes + (r.alignment - 1) ≤ capacity) :
    HasRoom { start, capacity } r := by
  have := padding_le (start + header) r.alignment
  simp only [HasRoom, offset, data, Nat.add_zero, Nat.zero_add]
  omega

end Chunk

/-- The capacity of a chunk that is made for the request: at least a block, and enough for the
bytes with the most padding that the alignment can cost. -/
def Request.chunkCapacity (r : Request) (blockSize : Nat) : Nat :=
  max blockSize (r.bytes + (r.alignment - 1))

/-- Why there can be no chunk for the request, if so. -/
def Request.overflow? (r : Request) (blockSize : Nat) : Option Fault :=
  match checkedAdd r.bytes (r.alignment - 1) with
  | none => some .chunkBytes
  | some least =>
      match checkedAdd Chunk.header (max least blockSize) with
      | none => some .chunkBytes
      | some bytes => if slabMax < bytes then some .chunkExtent else none

theorem Request.le_of_overflow?_eq_none {r : Request} {blockSize : Nat}
    (h : r.overflow? blockSize = none) :
    Chunk.header + r.chunkCapacity blockSize ≤ slabMax := by
  simp only [overflow?, checkedAdd] at h
  rw [chunkCapacity, Nat.max_comm]
  grind

structure Arena where
  blockSize : Nat
  /-- The installed chunks, oldest first. The last one is the head, which serves requests. -/
  chunks : Array Chunk := #[]
  /-- The bytes handed out since the last rewind, without padding. -/
  used : Nat := 0
  /-- The bytes obtained from the source and not given back. -/
  allocated : Nat := 0
  /-- What was handed out since the last rewind, newest first. -/
  grants : List Grant := []
  deriving DecidableEq, Repr

namespace Arena

def standardBlock : Nat := 1024 * 1024

/-- An empty arena; a block is never smaller than a byte. -/
def ofBlockSize (blockSize : Nat) : Arena := { blockSize := max 1 blockSize }

def head? (a : Arena) : Option Chunk := a.chunks.back?

def moveCursor (a : Arena) (chunk cursor : Nat) : Arena :=
  { a with chunks := a.chunks.modify chunk ({ · with cursor }) }

def credit (a : Arena) (g : Grant) : Arena :=
  { a with used := a.used + g.request.bytes, grants := g :: a.grants }

def place? (a : Arena) (r : Request) : Option Placement :=
  a.head?.bind (·.place? r)

def take (a : Arena) (p : Placement) (r : Request) : Arena :=
  (a.moveCursor (a.chunks.size - 1) p.cursor).credit { address := p.address, request := r }

def install (a : Arena) (c : Chunk) : Arena :=
  { a with chunks := a.chunks.push c }

theorem place?_install (a : Arena) (c : Chunk) (r : Request) :
    (a.install c).place? r = c.place? r := by
  simp [place?, head?, install]

/-- The arena without chunks and grants. -/
def emptied (a : Arena) : Arena := { blockSize := a.blockSize }

def shape (a : Arena) : Text.Shape :=
  .record "Pool"
    [.labelled "block_size" (.number a.blockSize), .labelled "used" (.number a.used),
      .labelled "allocated" (.number a.allocated), .labelled "chunks" (.number a.chunks.size)]

end Arena

structure ArenaSettings where
  blockSize : Nat := Arena.standardBlock
  deriving DecidableEq, Repr

namespace ArenaSettings

def validate (s : ArenaSettings) : Except Fault Unit :=
  if s.blockSize = 0 then .error (.invalidSetting "block_size must be non-zero") else .ok ()

def shape (s : ArenaSettings) : Text.Shape :=
  .record "PoolConfig" [.labelled "block_size" (.number s.blockSize)]

def arena (s : ArenaSettings) : Except Fault Arena :=
  match s.validate with
  | .ok () => .ok (.ofBlockSize s.blockSize)
  | .error fault => .error fault

end ArenaSettings

end GrowArena
