import GrowArena.Chain.Basic

/-!
Reading a chain from front to back while it grows. A cursor notes how far a node is published when
it enters the node, and leaves the node there, whatever is published later. Once it has found
nothing more it is spent for good.
-/

namespace GrowArena

/-- How far a reader has come. -/
inductive Cursor where
  /-- In a node, before a position, to leave the node at `stop`. -/
  | inside (node position stop : Nat)
  | spent
  deriving DecidableEq, Repr

namespace Chain

variable {ν α : Type} [Segment ν α]

def start (c : Chain ν) : Cursor :=
  .inside 0 0 (Segment.published c.head)

/-- The first value at or after a place, with the cursor behind it. -/
def seek (c : Chain ν) (node position stop : Nat) : Option α × Cursor :=
  match c.nodes[node]? with
  | none => (none, .spent)
  | some here =>
      match Segment.read? here position stop with
      | some (value, distance) => (some value, .inside node (position + distance) stop)
      | none =>
          match _h : c.nodes[node + 1]? with
          | none => (none, .spent)
          | some there => seek c (node + 1) 0 (Segment.published there)
termination_by c.nodes.size - node
decreasing_by
  obtain ⟨_, _⟩ := Array.getElem?_eq_some_iff.mp _h
  omega

def next (c : Chain ν) : Cursor → Option α × Cursor
  | .inside node position stop => seek c node position stop
  | .spent => (none, .spent)

/-- The results of asking `count` times for the next value. -/
def nexts (c : Chain ν) : Nat → Cursor → List (Option α) × Cursor
  | 0, cursor => ([], cursor)
  | count + 1, cursor =>
      let (value, cursor) := c.next cursor
      let (later, cursor) := nexts c count cursor
      (value :: later, cursor)

/-- The values up to the first time that there is none, at most `bound` of them. -/
def drain (c : Chain ν) : Nat → Cursor → List α
  | 0, _ => []
  | bound + 1, cursor =>
      match c.next cursor with
      | (some value, cursor) => value :: drain c bound cursor
      | (none, _) => []

/-- All values that a new reader finds. A value takes up at least one position. -/
def toList (c : Chain ν) : List α :=
  c.drain c.extent c.start

end Chain

end GrowArena
