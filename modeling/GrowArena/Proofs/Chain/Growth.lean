import GrowArena.Chain.Basic
import Mathlib.Algebra.BigOperators.Group.List.Basic
import Mathlib.Algebra.Ring.Nat
import Mathlib.Data.List.Iterate
import Mathlib.Logic.Function.Iterate

/-!
Chains that grow by a law. Each node is as large as the law makes it from the one before it, and
another comes behind it only when it takes no more; so the nodes are those of a fixed sequence, up
to the last that was needed.
-/

namespace GrowArena

variable {ν α : Type}

/-- How a chain comes by its nodes. -/
structure GrowthLaw (ν : Type) where
  /-- The capacity of the head. -/
  first : Nat
  /-- The capacity of the node after one of this capacity. -/
  next : Nat → Nat
  /-- True of every node. -/
  Sound : ν → Prop
  /-- True of every node that another came behind. -/
  Closed : ν → Prop
  /-- True of every node that came behind another. -/
  Begun : ν → Prop

/-- Passes of a loop. Each ends it with a result, or leaves the state in which the next one
starts. -/
inductive Passes {τ ρ : Type} (pass : τ → ρ ⊕ τ) : Nat → τ → ρ → Prop
  | last {state : τ} {result : ρ} (h : pass state = .inl result) : Passes pass 1 state result
  | again {n : Nat} {state state' : τ} {result : ρ} (h : pass state = .inr state')
      (later : Passes pass n state' result) : Passes pass (n + 1) state result

namespace Chain

theorem getElem?_modify (c : Chain ν) (i j : Nat) (f : ν → ν) :
    (c.modify i f).nodes.toList[j]? =
      if i = j then c.nodes.toList[j]?.map f else c.nodes.toList[j]? := by
  rw [modify, Array.toList_modify, List.getElem?_modify]
  split <;> simp

theorem getElem?_last (c : Chain ν) : c.nodes.toList[c.last]? = some c.tail := by
  rw [toList_eq, last_eq_length_closed]
  simp

theorem mem_of_mem_closed {c : Chain ν} {node : ν} (h : node ∈ c.closed) :
    node ∈ c.nodes.toList := by
  rw [toList_eq]
  exact List.mem_append_left _ h

theorem tail_mem (c : Chain ν) : c.tail ∈ c.nodes.toList :=
  List.mem_of_getElem? c.getElem?_last

/-- A node that is appended and then changed might have been appended as it is then. -/
theorem append_modify_last (c : Chain ν) (node : ν) (f : ν → ν) :
    (c.append node).modify (c.append node).last f = c.append (f node) := by
  have hclosed : (c.append node).closed = c.nodes.toList := by
    rw [closed, toList_append, List.dropLast_concat]
  apply ext_toList
  rw [toList_modify_last, tail_append, hclosed, toList_append]

variable [Segment ν α]

theorem capacities_modify (c : Chain ν) (i : Nat) {f : ν → ν}
    (hf : ∀ node, Segment.capacity (f node) = Segment.capacity node) :
    (c.modify i f).capacities = c.capacities := by
  rw [capacities, capacities]
  apply List.ext_getElem?
  intro j
  rw [List.getElem?_map, List.getElem?_map, getElem?_modify]
  split
  · rw [Option.map_map]
    exact congrArg (Option.map · _) (funext hf)
  · rfl

theorem capacities_append (c : Chain ν) (node : ν) :
    (c.append node).capacities = c.capacities ++ [Segment.capacity node] := by
  rw [capacities, toList_append, List.map_append]
  rfl

theorem length_capacities (c : Chain ν) : c.capacities.length = c.last + 1 := by
  rw [capacities, List.length_map, toList_eq, last_eq_length_closed, List.length_append,
    List.length_singleton]

theorem sum_capacities (c : Chain ν) :
    c.capacities.sum = (c.closed.map Segment.capacity).sum + Segment.capacity c.tail := by
  rw [capacities, toList_eq, List.map_append, List.sum_append, List.map_singleton,
    List.sum_singleton]

/-- The chain has grown by the law. -/
structure Grown (law : GrowthLaw ν) (c : Chain ν) : Prop where
  capacities_eq : c.capacities = List.iterate law.next law.first c.capacities.length
  sound : ∀ node ∈ c.nodes.toList, law.Sound node
  closed : ∀ i node, c.nodes.toList[i]? = some node → i < c.last → law.Closed node
  begun : ∀ i node, c.nodes.toList[i]? = some node → 0 < i → law.Begun node

namespace Grown

variable {law : GrowthLaw ν} {c : Chain ν}

theorem singleton {node : ν} (hcapacity : Segment.capacity node = law.first)
    (hsound : law.Sound node) : (Chain.singleton node).Grown law where
  capacities_eq := by simp [capacities, Chain.singleton, hcapacity]
  sound := by simpa [Chain.singleton] using hsound
  closed _ _ _ hi := absurd hi (Nat.not_lt_zero _)
  begun i n hn hi := by
    obtain ⟨i, rfl⟩ := Nat.exists_eq_succ_of_ne_zero (Nat.pos_iff_ne_zero.mp hi)
    simp [Chain.singleton] at hn

/-- What a node in some place is allowed to become. -/
theorem modify (h : c.Grown law) (i : Nat) {f : ν → ν}
    (hcapacity : ∀ node, Segment.capacity (f node) = Segment.capacity node)
    (hsound : ∀ node, c.nodes.toList[i]? = some node → law.Sound node → law.Sound (f node))
    (hclosed : ∀ node, c.nodes.toList[i]? = some node → i < c.last → law.Closed (f node))
    (hbegun : ∀ node, c.nodes.toList[i]? = some node → 0 < i → law.Begun (f node)) :
    (c.modify i f).Grown law where
  capacities_eq := by
    rw [capacities_modify c i hcapacity]
    exact h.capacities_eq
  sound node hnode := by
    obtain ⟨j, hj⟩ := List.mem_iff_getElem?.mp hnode
    rw [getElem?_modify] at hj
    split at hj
    · obtain ⟨old, hold, rfl⟩ := Option.map_eq_some_iff.mp hj
      subst i
      exact hsound old hold (h.sound old (List.mem_of_getElem? hold))
    · exact h.sound node (List.mem_of_getElem? hj)
  closed j node hj hlast := by
    rw [last_modify] at hlast
    rw [getElem?_modify] at hj
    split at hj
    · obtain ⟨old, hold, rfl⟩ := Option.map_eq_some_iff.mp hj
      subst i
      exact hclosed old hold hlast
    · exact h.closed j node hj hlast
  begun j node hj hpos := by
    rw [getElem?_modify] at hj
    split at hj
    · obtain ⟨old, hold, rfl⟩ := Option.map_eq_some_iff.mp hj
      subst i
      exact hbegun old hold hpos
    · exact h.begun j node hj hpos

/-- A change of the tail that begins it. -/
theorem modify_last (h : c.Grown law) {f : ν → ν}
    (hcapacity : ∀ node, Segment.capacity (f node) = Segment.capacity node)
    (hsound : law.Sound c.tail → law.Sound (f c.tail)) (hbegun : law.Begun (f c.tail)) :
    (c.modify c.last f).Grown law := by
  have htail : ∀ node, c.nodes.toList[c.last]? = some node → node = c.tail :=
    fun node hnode => Option.some.inj (hnode.symm.trans c.getElem?_last)
  apply h.modify c.last hcapacity
  · intro node hnode
    rw [htail node hnode]
    exact hsound
  · exact fun _ _ hlast => absurd hlast (Nat.lt_irrefl _)
  · intro node hnode _
    rw [htail node hnode]
    exact hbegun

/-- A change of a node that leaves it as full as it was. -/
theorem modify_of_iff (h : c.Grown law) (i : Nat) {f : ν → ν}
    (hcapacity : ∀ node, Segment.capacity (f node) = Segment.capacity node)
    (hsound : ∀ node, law.Sound node → law.Sound (f node))
    (hclosed : ∀ node, law.Closed node → law.Closed (f node))
    (hbegun : ∀ node, law.Begun node → law.Begun (f node)) : (c.modify i f).Grown law :=
  h.modify i hcapacity (fun node _ => hsound node)
    (fun node hnode hlast => hclosed node (h.closed i node hnode hlast))
    (fun node hnode hpos => hbegun node (h.begun i node hnode hpos))

theorem capacity_tail (h : c.Grown law) :
    Segment.capacity c.tail = law.next^[c.last] law.first := by
  have htail : c.capacities[c.last]? = some (Segment.capacity c.tail) := by
    rw [capacities, List.getElem?_map, getElem?_last]
    rfl
  rw [h.capacities_eq, List.getElem?_iterate _ _ _ _ (by rw [length_capacities]; omega)] at htail
  exact (Option.some.inj htail).symm

/-- A node may come behind a tail that takes no more, if it is begun with. -/
theorem append (h : c.Grown law) {node : ν}
    (hcapacity : Segment.capacity node = law.next (Segment.capacity c.tail))
    (hsound : law.Sound node) (hclosed : law.Closed c.tail) (hbegun : law.Begun node) :
    (c.append node).Grown law where
  capacities_eq := by
    rw [capacities_append, List.length_append, List.iterate_add, ← h.capacities_eq, hcapacity,
      h.capacity_tail, length_capacities, Function.iterate_succ_apply']
    rfl
  sound n hn := by
    rw [toList_append, List.mem_append, List.mem_singleton] at hn
    rcases hn with hold | rfl
    · exact h.sound n hold
    · exact hsound
  closed i n hn hlast := by
    have hlast' : (c.append node).last = c.last + 1 := by
      have hpos := c.size_pos
      simp only [last, Chain.append, Array.size_push]
      omega
    have hlength : c.nodes.toList.length = c.last + 1 := by
      rw [← length_capacities, capacities, List.length_map]
    rw [toList_append, List.getElem?_append_left (by omega)] at hn
    rcases Nat.lt_or_ge i c.last with hlt | hge
    · exact h.closed i n hn hlt
    · obtain rfl : i = c.last := by omega
      rw [getElem?_last] at hn
      exact Option.some.inj hn ▸ hclosed
  begun i n hn hpos := by
    rw [toList_append] at hn
    rcases Nat.lt_or_ge i c.nodes.toList.length with hlt | hge
    · rw [List.getElem?_append_left hlt] at hn
      exact h.begun i n hn hpos
    · rw [List.getElem?_append_right hge] at hn
      obtain ⟨-, rfl⟩ : i - c.nodes.toList.length = 0 ∧ node = n := by
        simpa [List.getElem?_singleton] using hn
      exact hbegun

theorem closed_of_mem (h : c.Grown law) {node : ν} (hnode : node ∈ c.closed) :
    law.Closed node := by
  obtain ⟨i, hi⟩ := List.getElem?_of_mem hnode
  obtain ⟨hlt, -⟩ := List.getElem?_eq_some_iff.mp hi
  refine h.closed i node ?_ (by rwa [last_eq_length_closed])
  rw [toList_eq, List.getElem?_append_left hlt, hi]

theorem begun_tail (h : c.Grown law) (hclosed : c.closed ≠ []) : law.Begun c.tail := by
  refine h.begun c.last c.tail c.getElem?_last ?_
  rw [last_eq_length_closed]
  exact List.length_pos_iff.mpr hclosed

theorem capacities_closed (h : c.Grown law) :
    c.closed.map Segment.capacity = List.iterate law.next law.first c.closed.length := by
  have hall := h.capacities_eq
  rw [length_capacities, last_eq_length_closed, capacities, toList_eq, List.map_append,
    List.iterate_add] at hall
  exact (List.append_inj hall (by simp)).1

end Grown

end Chain

end GrowArena
