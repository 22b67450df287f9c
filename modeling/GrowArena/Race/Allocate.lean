import GrowArena.Arena.Allocate
import GrowArena.Race.Schedule

/-!
Several callers inside `Store.allocate` at once. An allocation is cut into the steps that others can
come between: finding the head, looking for room in it, obtaining a chunk, settling whether it
becomes the head, moving the cursor of the chunk looked at, and counting the bytes. By the time that
a caller looks for room, the chunk may not be the head any more. A step that finds the chain or the
cursor changed since the caller looked starts over.
-/

namespace GrowArena

/-- How far a caller has come with a request. -/
inductive Attempt where
  | looking
  /-- Has found the head, the chunk in this place of the chain. -/
  | facing (chunk : Nat)
  /-- Has seen a place in a chunk, whose cursor then stood at `cursor`. -/
  | placing (chunk cursor : Nat) (place : Placement)
  /-- Has seen no room in the head of a chain that then had `observed` chunks. -/
  | lacking (observed : Nat)
  /-- Has obtained a chunk, which counts as allocated. -/
  | holding (observed : Nat) (chunk : Chunk)
  /-- Has taken bytes, which do not count as used yet. -/
  | counting (address : Nat)
  | done (outcome : Except Fault Nat)

namespace Attempt

variable {σ : Type} [SlabSource σ]

def step (r : Request) (attempt : Attempt) (s : Store σ) : Attempt × Store σ :=
  match attempt with
  | looking =>
      if r.alignment = 0 then (done (.error (.invalidAlignment 0)), s)
      else
        match s.arena.chunks.size with
        | 0 => (lacking 0, s)
        | chunk + 1 => (facing chunk, s)
  | facing chunk =>
      match s.arena.chunks[chunk]? with
      | none => (looking, s)
      | some c =>
          match c.place? r with
          | some place => (placing chunk c.cursor place, s)
          | none => (lacking (chunk + 1), s)
  | placing chunk cursor place =>
      if (s.arena.chunks[chunk]?.map Chunk.cursor) = some cursor then
        (counting place.address, s.update (·.moveCursor chunk place.cursor))
      else (looking, s)
  | lacking observed =>
      match Store.obtain r s with
      | .ok chunk s => (holding observed chunk, s)
      | .error fault s => (done (.error fault), s)
  | holding observed chunk => (looking, Store.settle observed chunk s)
  | counting address =>
      (done (.ok address), s.update (·.credit { address, request := r }))
  | done outcome => (done outcome, s)

end Attempt

/-- Someone who makes requests one after the other, up to the first that fails. -/
structure Caller where
  todo : List Request
  current : Option (Request × Attempt) := none
  /-- What was granted, newest first. -/
  granted : List Grant := []
  fault : Option Fault := none

namespace Caller

variable {σ : Type} [SlabSource σ]

/-- Ends the current request. -/
def conclude (c : Caller) (r : Request) : Except Fault Nat → Caller
  | .ok address => { c with current := none, granted := { address, request := r } :: c.granted }
  | .error fault => { c with todo := [], current := none, fault := some fault }

/-- Takes up a request, or does one step of the current one. -/
def turn (c : Caller) (s : Store σ) : Caller × Store σ :=
  match c.current with
  | none =>
      match c.todo with
      | [] => (c, s)
      | r :: rs => ({ c with todo := rs, current := some (r, .looking) }, s)
  | some (r, attempt) =>
      match attempt.step r s with
      | (.done outcome, s) => (c.conclude r outcome, s)
      | (attempt, s) => ({ c with current := some (r, attempt) }, s)

/-- No request takes more turns without another caller in between, however far it has come. At
worst it is about to look for room in a chunk that is not the head any more: the chunk that it
obtains for want of room goes back, and the search starts over. -/
def turnsAlone : Nat := 11

end Caller

/-- Lets callers make their requests. They take turns as the schedule says, and after its end go on
one after the other. -/
def Store.raceAllocate {σ : Type} [SlabSource σ] (requests : List (List Request))
    (schedule : Schedule) (s : Store σ) : List Caller × Store σ :=
  let alone := Schedule.inOrder (requests.map (Caller.turnsAlone * ·.length))
  (schedule ++ alone).run Caller.turn (requests.map fun todo => { todo }) s

end GrowArena
