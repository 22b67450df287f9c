import GrowArena.Text.Quoted
import GrowArena.Text.Shape

/-!
Why a request to an arena or an array was turned down, with the wording of each cause.
-/

namespace GrowArena

open Text

inductive Fault where
  /-- The source refused a slab; `used` and `allocated` are the counters at that moment. -/
  | outOfMemory (requested alignment used allocated : Nat)
  | invalidAlignment (alignment : Nat)
  /-- A size is beyond what an address or a slab can express. -/
  | sizeOverflow (what : String)
  | indexOutOfBounds (index length : Nat)
  | empty
  | invalidSetting (reason : String)
  deriving DecidableEq, Repr

namespace Fault

/-- The bytes of an array's elements cannot be counted. -/
def elementBytes : Fault := sizeOverflow "node data"

/-- The bytes of a chunk cannot be counted. -/
def chunkBytes : Fault := sizeOverflow "chunk size"

/-- The bytes of a chunk can be counted, but no slab is that large. -/
def chunkExtent : Fault := sizeOverflow "chunk layout"

def isOutOfMemory : Fault → Bool
  | outOfMemory .. => true
  | _ => false

def message : Fault → String
  | outOfMemory requested alignment used allocated =>
      s!"out of memory: requested {requested} bytes aligned to {alignment} " ++
        s!"({used} bytes used, {allocated} bytes allocated)"
  | invalidAlignment alignment => s!"invalid alignment {alignment}: must be non-zero"
  | sizeOverflow what => s!"size overflow computing {what}"
  | indexOutOfBounds index length =>
      s!"index out of bounds: index is {index} but length is {length}"
  | empty => "array is empty"
  | invalidSetting reason => s!"invalid configuration: {reason}"

def shape : Fault → Shape
  | outOfMemory requested alignment used allocated =>
      .record "OutOfMemory"
        [.labelled "requested" (.number requested), .labelled "alignment" (.number alignment),
          .labelled "used" (.number used), .labelled "allocated" (.number allocated)]
  | invalidAlignment alignment =>
      .record "InvalidAlignment" [.labelled "alignment" (.number alignment)]
  | sizeOverflow what => .record "SizeOverflow" [.labelled "what" (.atom (quoted what))]
  | indexOutOfBounds index length =>
      .record "IndexOutOfBounds"
        [.labelled "index" (.number index), .labelled "len" (.number length)]
  | empty => .atom "Empty"
  | invalidSetting reason => .record "InvalidConfig" [.labelled "reason" (.atom (quoted reason))]

end Fault

end GrowArena
