/-!
Chains of nodes: what a typed and a packed array have in common. A chain is never empty, its first
node is the head and its last the tail, and nodes are only ever appended. Of each node readers see
what is published, and nothing past it.
-/

namespace GrowArena

/-- Nodes that hold values of type `α`, one after the other from position 0. -/
class Segment (ν : Type) (α : outParam Type) where
  capacity : ν → Nat
  /-- The position up to which the node may be read. -/
  published : ν → Nat
  /-- The value at a position and the distance to the next one, for a reader that stops at
  `stop`. -/
  read? : (node : ν) → (position stop : Nat) → Option (α × Nat)
  read?_self : ∀ node stop, read? node stop stop = none

structure Chain (ν : Type) where
  nodes : Array ν
  size_pos : 0 < nodes.size

namespace Chain

variable {ν α : Type}

def singleton (head : ν) : Chain ν where
  nodes := #[head]
  size_pos := by simp

def head (c : Chain ν) : ν :=
  have := c.size_pos
  c.nodes[0]

def tail (c : Chain ν) : ν :=
  c.nodes.back c.size_pos

def append (c : Chain ν) (node : ν) : Chain ν where
  nodes := c.nodes.push node
  size_pos := by simp

/-- Changes the node at an index, if there is one. -/
def modify (c : Chain ν) (i : Nat) (f : ν → ν) : Chain ν where
  nodes := c.nodes.modify i f
  size_pos := by simpa using c.size_pos

def last (c : Chain ν) : Nat := c.nodes.size - 1

def closed (c : Chain ν) : List ν := c.nodes.toList.dropLast

theorem toList_eq (c : Chain ν) : c.nodes.toList = c.closed ++ [c.tail] := by
  have hne : c.nodes.toList ≠ [] := by
    have := c.size_pos
    intro hnil
    simp [← Array.length_toList, hnil] at this
  have htail : c.nodes.toList.getLast hne = c.tail := by
    simp [tail, Array.back, List.getLast_eq_getElem]
  rw [closed, ← htail, List.dropLast_concat_getLast]

theorem ext_toList {c c' : Chain ν} (h : c.nodes.toList = c'.nodes.toList) : c = c' := by
  cases c
  cases c'
  congr
  exact Array.toList_inj.mp h

theorem last_eq_length_closed (c : Chain ν) : c.last = c.closed.length := by
  simp [last, closed]

theorem toList_modify_last (c : Chain ν) (f : ν → ν) :
    (c.modify c.last f).nodes.toList = c.closed ++ [f c.tail] := by
  rw [modify, Array.toList_modify, toList_eq, last_eq_length_closed,
    List.modify_eq_take_cons_drop (by simp)]
  simp

@[simp]
theorem tail_modify_last (c : Chain ν) (f : ν → ν) : (c.modify c.last f).tail = f c.tail := by
  have := (toList_eq _).symm.trans (toList_modify_last c f)
  simpa using (List.append_inj' this rfl).2

@[simp]
theorem closed_modify_last (c : Chain ν) (f : ν → ν) : (c.modify c.last f).closed = c.closed := by
  have := (toList_eq _).symm.trans (toList_modify_last c f)
  exact (List.append_inj' this rfl).1

@[simp]
theorem last_modify (c : Chain ν) (i : Nat) (f : ν → ν) : (c.modify i f).last = c.last := by
  simp [last, modify]

theorem modify_last_modify_last (c : Chain ν) (f g : ν → ν) :
    (c.modify c.last f).modify c.last g = c.modify c.last (g ∘ f) := by
  apply ext_toList
  have := toList_modify_last (c.modify c.last f) g
  simp only [last_modify, closed_modify_last, tail_modify_last] at this
  rw [this, toList_modify_last, Function.comp_apply]

theorem modify_last_eq_self (c : Chain ν) {f : ν → ν} (h : f c.tail = c.tail) :
    c.modify c.last f = c := by
  apply ext_toList
  rw [toList_modify_last, h, ← toList_eq]

theorem toList_append (c : Chain ν) (node : ν) :
    (c.append node).nodes.toList = c.nodes.toList ++ [node] := by
  simp [append]

@[simp]
theorem tail_append (c : Chain ν) (node : ν) : (c.append node).tail = node := by
  simp [tail, append, Array.back]

variable [Segment ν α]

def capacities (c : Chain ν) : List Nat :=
  c.nodes.toList.map Segment.capacity

/-- The published extents of all nodes together. -/
def extent (c : Chain ν) : Nat :=
  c.nodes.toList.foldr (fun node extent => Segment.published node + extent) 0

def isEmpty (c : Chain ν) : Bool :=
  c.nodes.all fun node => Segment.published node == 0

end Chain

end GrowArena
