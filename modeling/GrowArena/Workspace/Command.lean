import GrowArena.Event
import GrowArena.Growth
import GrowArena.Race.Schedule
import GrowArena.Workspace.Value

/-!
What one can ask of a workspace, and what it answers. Arrays, readers and references go by names.
A command is carried out by one caller; a job is a command, or a race of several callers.
-/

namespace GrowArena

inductive Content (α : Type) where
  | one (value : α)
  | many (values : List α)
  | text (s : String)
  deriving DecidableEq, Repr

inductive Command (α : Type) where
  | allocate (request : Request)
  /-- Puts a value into the arena, to be kept under the name `reference`. -/
  | keep (reference : String) (kind : Kind) (value : α)
  | keepMany (reference : String) (kind : Kind) (values : List α)
  | keepText (reference text : String)
  | recall (reference : String)
  | describeArena (overLines : Bool)
  | blockSize
  | rewind
  | makeTyped (array : String) (kind : Kind) (growth : Growth)
  | makePacked (array : String) (growth : Growth)
  | push (array : String) (values : List α)
  | get (array : String) (index : Nat)
  /-- Like `get`, but a missing element ends in an abort. -/
  | getOrAbort (array : String) (index : Nat)
  | back (array : String)
  | size (array : String)
  | isEmpty (array : String)
  | capacities (array : String)
  | values (array : String)
  | sorted (array : String)
  | growth (array : String)
  | describe (array : String) (overLines : Bool)
  | drop (array : String)
  | openReader (array reader : String)
  | copyReader (reader copy : String)
  | read (reader : String) (count : Nat)

/-- In a race, each list is for a caller or writer of its own. After the end of the schedule they
go on one after the other. -/
inductive Job (α : Type) where
  | command (c : Command α)
  | raceAllocate (requests : List (List Request)) (schedule : Schedule)
  | racePush (array : String) (values : List (List α)) (schedule : Schedule)

/-- What is known after callers have raced for memory and all were served. -/
structure AllocationReport where
  aligned : Bool
  disjoint : Bool
  fits : Bool
  used : Nat
  deriving DecidableEq, Repr

/-- What is known after writers have raced for an array that took all their values. -/
structure PushReport where
  count : Nat
  /-- The values of each writer stand in the array in the order of their pushes. -/
  inOrder : Bool
  size : Nat
  /-- A reader that went along saw nothing that was not pushed. -/
  readerTrue : Bool
  deriving DecidableEq, Repr

inductive Answer (α : Type) where
  | done
  | number (n : Nat)
  | flag (b : Bool)
  | text (s : String)
  | numbers (ns : List Nat)
  | content (c : Content α)
  | address (n : Nat)
  | kept (address : Nat) (content : Content α)
  | growth (g : Growth)
  | results (values : List (Option α))
  | allocations (report : AllocationReport)
  | pushes (report : PushReport)
  deriving DecidableEq, Repr

inductive Failure where
  | fault (f : Fault)
  | abort (message : String)
  | unknown (name : String)
  /-- The array of that name is packed, and the command is for typed arrays. -/
  | notTyped (name : String)
  deriving DecidableEq, Repr

structure Counters where
  used : Nat
  allocated : Nat
  chunks : Nat
  deriving DecidableEq, Repr

structure Outcome (α : Type) where
  result : Except Failure (Answer α)
  events : List Event
  destroyed : List α
  /-- Absent as soon as they depend on the schedule of a race. -/
  counters : Option Counters

end GrowArena
