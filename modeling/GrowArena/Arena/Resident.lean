import GrowArena.Arena.Allocate

/-!
Values that live in an arena and grow by allocating from it. An operation on such a value may fail
half-way; store and value are then those that it had reached.
-/

namespace GrowArena

/-- Computations on a value that lives in the arena of a store. -/
abbrev ResidentM (σ β : Type) := EStateM Fault (Store σ × β)

/-- The state that a computation leaves behind, whether it fails or not. -/
def finalState {ε τ β : Type} : EStateM.Result ε τ β → τ
  | .ok _ state => state
  | .error _ state => state

structure Footprint where
  size : Nat
  alignment : Nat
  deriving DecidableEq, Repr

/-- Why the rest of a sequence of values was not taken, and that rest, the refused value first. -/
structure Refusal (α : Type) where
  fault : Fault
  values : List α
  deriving Repr

def Refusal.map {α β : Type} (f : α → β) (r : Refusal α) : Refusal β where
  fault := r.fault
  values := r.values.map f

/-- Pushes values up to the first one that is refused. -/
def pushEach {σ α β : Type} (push : α → ResidentM σ β Unit) :
    List α → EStateM (Refusal α) (Store σ × β) Unit
  | [], state => .ok () state
  | value :: values, state =>
      match push value state with
      | .ok () state => pushEach push values state
      | .error fault state => .error ⟨fault, value :: values⟩ state

/-- What a node of an array takes besides its elements and their marks. -/
def nodeRecord : Request := { bytes := 48, alignment := 8 }

namespace Store

variable {σ : Type} [SlabSource σ]

def allocateAll : List Request → ArenaM σ Unit
  | [] => pure ()
  | r :: rs => do
      let _ ← allocate r
      allocateAll rs

end Store

end GrowArena
