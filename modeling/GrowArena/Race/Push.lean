import GrowArena.Packed.Basic
import GrowArena.Race.Schedule
import GrowArena.Typed.Basic

/-!
Several writers pushing to one array at once, and a reader beside them. A push is cut into the steps
that others can come between: a claim, and then whatever completes it.
-/

namespace GrowArena

/-- Arrays whose pushes come in steps. -/
class Staged (β : Type) (ν α : outParam Type) where
  chain : β → Chain ν
  /-- A claim whose value is not, or not completely, stored. -/
  Pending : Type
  claim {σ : Type} [SlabSource σ] : α → ResidentM σ β Pending
  /-- One step towards completing a claim; none is pending after the last. -/
  proceed : Pending → β → Option Pending × β
  /-- No push takes more steps, the claim included. -/
  steps : Nat

instance {α : Type} : Staged (TypedArray α) (TypedNode α) α where
  chain := TypedArray.chain
  Pending := TypedArray.Ticket × α
  claim value := fun state =>
    match TypedArray.claim state with
    | .ok t state => .ok (t, value) state
    | .error fault state => .error fault state
  proceed := fun (t, value) a => (none, a.complete t value)
  steps := 2

/-- A reservation with the bytes that are still to be stored, from its byte `stored` on. -/
structure PackedArray.Pending where
  spot : PackedArray.Spot
  stored : Nat
  rest : List UInt8
  deriving DecidableEq, Repr

/-- Stores the next byte of a reservation, or finishes it. -/
def PackedArray.proceed (p : PackedArray.Pending) (a : PackedArray) :
    Option PackedArray.Pending × PackedArray :=
  match p.rest with
  | byte :: rest =>
      (some { p with stored := p.stored + 1, rest }, a.store p.spot p.stored byte)
  | [] => (none, a.finish p.spot)

instance : Staged PackedArray PackedNode UInt32 where
  chain := PackedArray.chain
  Pending := PackedArray.Pending
  claim word := fun state =>
    let code := Leb128.encode word
    match PackedArray.reserve code.length state with
    | .ok spot state => .ok { spot, stored := 0, rest := code } state
    | .error fault state => .error fault state
  proceed := PackedArray.proceed
  steps := Leb128.maxWidth + 2

section

variable {σ β ν α : Type} [Staged β ν α]

/-- Someone who pushes values one after the other, up to the first that is refused. -/
structure Writer (β : Type) {ν α : Type} [Staged β ν α] where
  todo : List α
  pending : Option (Staged.Pending β) := none
  refusal : Option (Refusal α) := none

/-- One step of the current push, or the claim of the next. -/
def Writer.turn [SlabSource σ] (w : Writer β) (state : Store σ × β) :
    Writer β × (Store σ × β) :=
  match w.pending with
  | some p =>
      let (pending, a) := Staged.proceed p state.2
      ({ w with pending }, (state.1, a))
  | none =>
      match w.todo with
      | [] => (w, state)
      | value :: todo =>
          match Staged.claim value state with
          | .ok p state => ({ w with todo, pending := some p }, state)
          | .error fault state =>
              ({ w with todo := [], refusal := some ⟨fault, value :: todo⟩ }, state)

/-- Someone who reads an array over and over while it grows. -/
structure Reader (α : Type) where
  cursor : Cursor
  /-- The values read, newest first. -/
  seen : List α := []

/-- Reads the next value, or starts again from the front. -/
def Reader.turn [Segment ν α] (r : Reader α) (c : Chain ν) : Reader α :=
  match c.next r.cursor with
  | (some value, cursor) => { cursor, seen := value :: r.seen }
  | (none, _) => { r with cursor := c.start }

/-- A step of a writer, after which a reader takes a turn. -/
def Writer.watchedTurn [SlabSource σ] [Segment ν α] (w : Writer β) :
    (Store σ × β) × Reader α → Writer β × ((Store σ × β) × Reader α)
  | (state, r) =>
      let (w, state) := w.turn state
      (w, state, r.turn (Staged.chain state.2))

/-- What there is to say after a race of writers. -/
structure PushRace (α : Type) where
  contents : List α
  seen : List α
  /-- What was not taken, writer by writer. -/
  refusals : List (Refusal α)

/-- Lets writers push their values. They take turns as the schedule says, and after its end go on
one after the other. -/
def racePush [SlabSource σ] [Segment ν α] (values : List (List α)) (schedule : Schedule)
    (state : Store σ × β) : PushRace α × (Store σ × β) :=
  let writers : List (Writer β) := values.map fun todo => { todo }
  let reader : Reader α := { cursor := (Staged.chain state.2).start }
  let alone := Schedule.inOrder (values.map (Staged.steps β * ·.length))
  let (writers, state, reader) := (schedule ++ alone).run Writer.watchedTurn writers (state, reader)
  ({ contents := (Staged.chain state.2).toList
     seen := reader.seen
     refusals := writers.filterMap Writer.refusal }, state)

end

end GrowArena
