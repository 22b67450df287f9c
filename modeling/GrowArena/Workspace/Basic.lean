import GrowArena.Race.Allocate
import GrowArena.Race.Push
import GrowArena.Workspace.Command

/-!
A workspace: an arena with named arrays that live in it, named readers of these arrays, and named
references to values put into the arena.
-/

namespace GrowArena

/-- Things that go by names, in some order. Of several things of one name, the first is meant. -/
abbrev Table (β : Type) := List (String × β)

namespace Table

variable {β : Type}

def find? (t : Table β) (name : String) : Option β := t.lookup name

def set (name : String) (b : β) : Table β → Table β
  | [] => []
  | entry :: t => if name == entry.1 then (name, b) :: t else entry :: set name b t

def remove (name : String) : Table β → Table β
  | [] => []
  | entry :: t => if name == entry.1 then t else entry :: remove name t

end Table

inductive Holding (α : Type) where
  | typed (kind : Kind) (array : TypedArray α)
  | packed (array : PackedArray)

namespace Holding

variable {α : Type}

def growth : Holding α → Growth
  | typed _ a => a.growth
  | packed a => a.growth

def capacities : Holding α → List Nat
  | typed _ a => a.chain.capacities
  | packed a => a.chain.capacities

/-- The number of elements of a typed array, of bytes of a packed one. -/
def size : Holding α → Nat
  | typed _ a => a.size
  | packed a => a.byteSize

def isEmpty : Holding α → Bool
  | typed _ a => a.chain.isEmpty
  | packed a => a.chain.isEmpty

def start : Holding α → Cursor
  | typed _ a => a.chain.start
  | packed a => a.chain.start

/-- Of values that are given up, those whose destruction is reported. -/
def reported (values : List α) : Holding α → List α
  | typed kind _ => if kind.isWatched then values else []
  | packed _ => []

/-- The values that are destroyed with the array, as far as that is reported. -/
def destruction : Holding α → List α
  | typed kind a => if kind.isWatched then a.destructionOrder else []
  | packed _ => []

variable [Element α]

def toList : Holding α → List α
  | typed _ a => a.chain.toList
  | packed a => a.chain.toList.map Element.ofWord

/-- The results of asking a reader `count` times for the next value. -/
def nexts (count : Nat) (cursor : Cursor) : Holding α → List (Option α) × Cursor
  | typed _ a => a.chain.nexts count cursor
  | packed a =>
      let (words, cursor) := a.chain.nexts count cursor
      (words.map (·.map Element.ofWord), cursor)

variable {σ : Type} [SlabSource σ]

def pushAll (values : List α) : EStateM (Refusal α) (Store σ × Holding α) Unit
  | (s, typed kind a) =>
      match TypedArray.pushAll values (s, a) with
      | .ok () (s, a) => .ok () (s, typed kind a)
      | .error refusal (s, a) => .error refusal (s, typed kind a)
  | (s, packed a) =>
      match PackedArray.pushAll (values.map Element.toWord) (s, a) with
      | .ok () (s, a) => .ok () (s, packed a)
      | .error refusal (s, a) =>
          .error (refusal.map Element.ofWord) (s, packed a)

/-- Pushes each list of values by a writer of its own. -/
def racePush (values : List (List α)) (schedule : Schedule) :
    Store σ × Holding α → PushRace α × (Store σ × Holding α)
  | (s, typed kind a) =>
      let (race, s, a) := GrowArena.racePush values schedule (s, a)
      (race, s, typed kind a)
  | (s, packed a) =>
      let words := values.map (·.map Element.toWord)
      let (race, s, a) := GrowArena.racePush words schedule (s, a)
      ({ contents := race.contents.map Element.ofWord
         seen := race.seen.map Element.ofWord
         refusals := race.refusals.map (·.map Element.ofWord) }, s, packed a)

end Holding

structure Bookmark where
  array : String
  cursor : Cursor
  deriving DecidableEq, Repr

/-- An arena with everything that refers to it. -/
structure Workspace (σ α : Type) where
  store : Store σ
  arrays : Table (Holding α) := []
  readers : Table Bookmark := []
  references : Table (Content α) := []
  /-- The watched values destroyed so far, oldest first. -/
  destroyed : Array α := #[]
  /-- There was a race, so the counters of the arena depend on a schedule. -/
  raced : Bool := false

namespace Workspace

variable {σ α : Type}

def ofArena (arena : Arena) (source : σ) : Workspace σ α where
  store := { source, arena }

def counters (w : Workspace σ α) : Counters where
  used := w.store.arena.used
  allocated := w.store.arena.allocated
  chunks := w.store.arena.chunks.size

def destroy (w : Workspace σ α) (values : List α) : Workspace σ α :=
  { w with destroyed := w.destroyed ++ values }

def setArray (w : Workspace σ α) (array : String) (store : Store σ) (h : Holding α) :
    Workspace σ α :=
  { w with store, arrays := w.arrays.set array h }

def setReader (w : Workspace σ α) (name : String) (b : Bookmark) : Workspace σ α :=
  { w with readers := (name, b) :: w.readers.filter (·.1 != name) }

def setReference (w : Workspace σ α) (name : String) (c : Content α) : Workspace σ α :=
  { w with references := (name, c) :: w.references.filter (·.1 != name) }

def drop (w : Workspace σ α) (array : String) (h : Holding α) : Workspace σ α :=
  { w with
    arrays := w.arrays.remove array
    readers := w.readers.filter (·.2.array != array) }.destroy h.destruction

/-- The values that are destroyed with the arrays, in the order of creation of these. -/
def destruction (w : Workspace σ α) : List α :=
  w.arrays.flatMap (·.2.destruction)

/-- Destroys everything that refers to the arena, the arrays in the order of their creation, and
gives the arena's memory back. -/
def clear [SlabSource σ] (w : Workspace σ α) : Workspace σ α :=
  { w with
    store := w.store.rewind
    arrays := []
    readers := []
    references := [] }.destroy w.destruction

end Workspace

end GrowArena
