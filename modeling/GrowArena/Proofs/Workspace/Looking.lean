import GrowArena.Proofs.Tandem
import GrowArena.Workspace.Step

/-!
Commands that look at arrays. Whatever relates two workspaces, if their arrays and readers are the
same, then such a command gives the same answer in both, and leaves them related if moving a reader
does.
-/

namespace GrowArena

variable {σ α β : Type}

/-- The command looks at an array or moves a reader, and does nothing else. -/
def Command.looks : Command α → Bool
  | .get .. | .getOrAbort .. | .back _ | .size _ | .isEmpty _ | .capacities _ | .values _
  | .sorted _ | .growth _ | .describe .. | .openReader .. | .copyReader .. | .read .. => true
  | _ => false

/-- The address that an answer tells. -/
def Answer.address? : Answer α → Option Nat
  | .address n | .kept n _ => some n
  | _ => none

namespace Workspace

/-- The relation is between workspaces with the same arrays and readers, and is kept when the same
reader moves in both. -/
structure SameLook (R : Workspace σ α → Workspace σ α → Prop) : Prop where
  arrays : ∀ {w w' : Workspace σ α}, R w w' → w'.arrays = w.arrays
  readers : ∀ {w w' : Workspace σ α}, R w w' → w'.readers = w.readers
  setReader : ∀ {w w' : Workspace σ α}, R w w' → ∀ name b,
    R (w.setReader name b) (w'.setReader name b)

/-- The same answer, which tells no address. -/
def SameAnswer (answer answer' : Answer α) : Prop := answer' = answer ∧ answer.address? = none

variable {R : Workspace σ α → Workspace σ α → Prop} {w w' : Workspace σ α}

theorem tandem_liftFault (h : R w w') (result : Except Fault β) :
    Tandem R Eq (liftFault result w) (liftFault result w') := by
  cases result with
  | ok b => exact .ok rfl h
  | error fault => exact .error h

namespace SameLook

variable (hR : SameLook R)

include hR

theorem holding (h : R w w') (array : String) :
    Tandem R Eq (holding array w) (holding array w') := by
  unfold Workspace.holding
  rw [hR.arrays h]
  cases w.arrays.find? array with
  | some found => exact .ok rfl h
  | none => exact .error h

theorem typedArray (h : R w w') (array : String) :
    Tandem R Eq (typedArray array w) (typedArray array w') := by
  unfold Workspace.typedArray
  rw [hR.arrays h]
  cases w.arrays.find? array with
  | none => exact .error h
  | some found =>
      cases found with
      | typed kind a => exact .ok rfl h
      | packed a => exact .error h

theorem bookmark (h : R w w') (reader : String) :
    Tandem R Eq (bookmark reader w) (bookmark reader w') := by
  unfold Workspace.bookmark
  rw [hR.readers h]
  cases w.readers.find? reader with
  | some found => exact .ok rfl h
  | none => exact .error h

variable [SlabSource σ] [Element α]

theorem perform (h : R w w') {c : Command α} (hc : c.looks = true) :
    Tandem R SameAnswer (perform c w) (perform c w') := by
  cases c with
  | get array index =>
      refine (hR.typedArray h array).bind ?_
      rintro a _ v v' rfl hv
      refine (tandem_liftFault hv (a.get index)).bind ?_
      rintro value _ v v' rfl hv
      exact .ok ⟨rfl, rfl⟩ hv
  | getOrAbort array index =>
      refine (hR.typedArray h array).bind ?_
      rintro a _ v v' rfl hv
      cases a.get index with
      | ok value => exact .ok ⟨rfl, rfl⟩ hv
      | error fault => exact .error hv
  | back array =>
      refine (hR.typedArray h array).bind ?_
      rintro a _ v v' rfl hv
      refine (tandem_liftFault hv a.back).bind ?_
      rintro value _ v v' rfl hv
      exact .ok ⟨rfl, rfl⟩ hv
  | openReader array reader =>
      refine (hR.holding h array).bind ?_
      rintro found _ v v' rfl hv
      exact .ok ⟨rfl, rfl⟩ (hR.setReader hv reader _)
  | copyReader reader copy =>
      refine (hR.bookmark h reader).bind ?_
      rintro b _ v v' rfl hv
      exact .ok ⟨rfl, rfl⟩ (hR.setReader hv copy b)
  | read reader count =>
      refine (hR.bookmark h reader).bind ?_
      rintro b _ v v' rfl hv
      refine (hR.holding hv b.array).bind ?_
      rintro found _ v v' rfl hv
      exact .ok ⟨rfl, rfl⟩ (hR.setReader hv reader _)
  | size array | isEmpty array | capacities array | «values» array | sorted array
  | growth array | describe array =>
      refine (hR.holding h array).bind ?_
      rintro found _ v v' rfl hv
      exact .ok ⟨rfl, rfl⟩ hv
  | _ => cases hc

end SameLook

end Workspace

end GrowArena
