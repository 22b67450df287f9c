import GrowArena.Workspace.Basic

/-!
Running jobs in a workspace. A command that fails leaves behind what it had done before it failed.
-/

namespace GrowArena

abbrev WorkspaceM (σ α : Type) := EStateM Failure (Workspace σ α)

namespace Workspace

variable {σ α : Type}

def holding (array : String) : WorkspaceM σ α (Holding α) := fun w =>
  match w.arrays.find? array with
  | some h => .ok h w
  | none => .error (.unknown array) w

def typedArray (array : String) : WorkspaceM σ α (TypedArray α) := fun w =>
  match w.arrays.find? array with
  | some (.typed _ a) => .ok a w
  | some (.packed _) => .error (.notTyped array) w
  | none => .error (.unknown array) w

def bookmark (reader : String) : WorkspaceM σ α Bookmark := fun w =>
  match w.readers.find? reader with
  | some b => .ok b w
  | none => .error (.unknown reader) w

/-- A value, or the fault that stands in its place. -/
def liftFault {β : Type} : Except Fault β → WorkspaceM σ α β
  | .ok b => pure b
  | .error fault => throw (.fault fault)

def onStore {β : Type} (act : ArenaM σ β) : WorkspaceM σ α β := fun w =>
  match act w.store with
  | .ok b store => .ok b { w with store }
  | .error fault store => .error (.fault fault) { w with store }

variable [SlabSource σ]

/-- Allocates memory for a content and keeps it under a name. -/
def keepAs (reference : String) (request : Request) (content : Content α) :
    WorkspaceM σ α (Answer α) := do
  let address ← onStore (Store.allocate request)
  modify (·.setReference reference content)
  return .kept address content

/-- Keeps a value under a name. If there is no memory for it, it is destroyed. -/
def keepOrDestroy (reference : String) (kind : Kind) (value : α) :
    WorkspaceM σ α (Answer α) := fun w =>
  let request := { bytes := kind.footprint.size, alignment := kind.footprint.alignment }
  match keepAs reference request (.one value) w with
  | .ok answer w => .ok answer w
  | .error failure w => .error failure (if kind.isWatched then w.destroy [value] else w)

def make (array : String) (create : ArenaM σ (Holding α)) : WorkspaceM σ α (Answer α) := do
  let h ← onStore create
  modify fun w => { w with arrays := w.arrays ++ [(array, h)] }
  return .done

variable [Element α]

/-- Appends values to an array. Values that it does not take are destroyed. -/
def push (array : String) (values : List α) : WorkspaceM σ α (Answer α) := fun w =>
  match w.arrays.find? array with
  | none => .error (.unknown array) w
  | some h =>
      match Holding.pushAll values (w.store, h) with
      | .ok () (store, h) => .ok .done (w.setArray array store h)
      | .error refusal (store, h) =>
          .error (.fault refusal.fault)
            ((w.setArray array store h).destroy (h.reported refusal.values))

/-- Lets writers append values to an array at once. Values that it does not take are destroyed. If
there are any, the answer is the fault that the first such writer met. -/
def race (array : String) (values : List (List α)) (schedule : Schedule) :
    WorkspaceM σ α (Answer α) := fun w =>
  match w.arrays.find? array with
  | none => .error (.unknown array) w
  | some h =>
      let known := h.toList ++ values.flatten
      let (race, store, h) := Holding.racePush values schedule (w.store, h)
      let w :=
        { w.setArray array store h with raced := true }.destroy
          (h.reported (race.refusals.flatMap Refusal.values))
      match race.refusals with
      | refusal :: _ => .error (.fault refusal.fault) w
      | [] =>
          let report : PushReport :=
            { count := race.contents.length
              inOrder := values.all (·.isSublist race.contents)
              size := h.size
              readerTrue := race.seen.all (known.contains ·) }
          .ok (.pushes report) w

/-- Lets callers allocate at once. If a request fails, the answer is the fault that the first such
caller met. -/
def raceForMemory (requests : List (List Request)) (schedule : Schedule) :
    WorkspaceM σ α (Answer α) := fun w =>
  let (callers, store) := w.store.raceAllocate requests schedule
  let w := { w with store, raced := true }
  match callers.findSome? Caller.fault with
  | some fault => .error (.fault fault) w
  | none =>
      let grants := callers.flatMap Caller.granted
      let report : AllocationReport :=
        { aligned := grants.all (decide ·.Aligned)
          disjoint := decide (grants.Pairwise Grant.Disjoint)
          fits := w.store.arena.used ≤ w.store.arena.allocated
          used := w.store.arena.used }
      .ok (.allocations report) w

def perform : Command α → WorkspaceM σ α (Answer α)
  | .allocate request => return .address (← onStore (Store.allocate request))
  | .keep reference kind value => keepOrDestroy reference kind value
  | .keepMany reference kind values =>
      keepAs reference
        { bytes := kind.footprint.size * values.length, alignment := kind.footprint.alignment }
        (.many values)
  | .keepText reference text =>
      keepAs reference { bytes := text.utf8ByteSize } (.text text)
  | .recall reference => do
      let some content := (← get).references.find? reference | throw (.unknown reference)
      return .content content
  | .describeArena overLines => return .text ((← get).store.arena.shape.render overLines)
  | .blockSize => return .number (← get).store.arena.blockSize
  | .rewind => do
      modify clear
      return .done
  | .makeTyped array kind growth =>
      make array (Holding.typed kind <$> TypedArray.create kind.footprint growth)
  | .makePacked array growth => make array (Holding.packed <$> PackedArray.create growth)
  | .push array values => push array values
  | .get array index => do
      return .content (.one (← liftFault ((← typedArray array).get index)))
  | .getOrAbort array index => do
      match (← typedArray array).get index with
      | .ok value => return .content (.one value)
      | .error fault => throw (.abort fault.message)
  | .back array => do
      return .content (.one (← liftFault (← typedArray array).back))
  | .size array => return .number (← holding array).size
  | .isEmpty array => return .flag (← holding array).isEmpty
  | .capacities array => return .numbers (← holding array).capacities
  | .values array => return .content (.many (← holding array).toList)
  | .sorted array => return .content (.many (Element.sort (← holding array).toList))
  | .growth array => return .growth (← holding array).growth
  | .describe array overLines => do
      let shape := Text.Shape.list ((← holding array).toList.map Element.shape)
      return .text (shape.render overLines)
  | .drop array => do
      let h ← holding array
      modify (·.drop array h)
      return .done
  | .openReader array reader => do
      let cursor := (← holding array).start
      modify (·.setReader reader { array, cursor })
      return .done
  | .copyReader reader copy => do
      let b ← bookmark reader
      modify (·.setReader copy b)
      return .done
  | .read reader count => do
      let b ← bookmark reader
      let (results, cursor) := (← holding b.array).nexts count b.cursor
      modify (·.setReader reader { b with cursor })
      return .results results

def carryOut : Job α → WorkspaceM σ α (Answer α)
  | .command c => perform c
  | .raceAllocate requests schedule => raceForMemory requests schedule
  | .racePush array values schedule => race array values schedule

/-- Forgets what earlier jobs reported. -/
def quieted (w : Workspace σ α) : Workspace σ α :=
  { w with store := { w.store with log := #[] }, destroyed := #[] }

/-- Tells what happened since the workspace was quieted. -/
def outcome (result : Except Failure (Answer α)) (w : Workspace σ α) : Outcome α where
  result := result
  events := w.store.log.toList
  destroyed := w.destroyed.toList
  counters := if w.raced then none else some w.counters

/-- Carries out a job and tells what came of it. -/
def step (job : Job α) (w : Workspace σ α) : Outcome α × Workspace σ α :=
  match carryOut job w.quieted with
  | .ok answer w => (w.outcome (.ok answer), w)
  | .error failure w => (w.outcome (.error failure), w)

def run : List (Job α) → Workspace σ α → List (Outcome α) × Workspace σ α
  | [], w => ([], w)
  | job :: jobs, w =>
      let (outcome, w) := w.step job
      let (outcomes, w) := run jobs w
      (outcome :: outcomes, w)

/-- Clears the workspace for good and tells what came of it. -/
def finish (w : Workspace σ α) : Outcome α :=
  w.quieted.clear.outcome (.ok .done)

end Workspace

end GrowArena
