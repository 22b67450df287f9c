import GrowArena.Proofs.Arena.Parts
import GrowArena.Proofs.Arena.Telling
import GrowArena.Proofs.Leb128.Code
import GrowArena.Proofs.Race.Books
import GrowArena.Proofs.Typed.Contents
import Mathlib.Algebra.Order.BigOperators.Group.List
import Mathlib.Algebra.Order.Group.Nat

/-!
What arrays take from an arena. A node costs no less than its capacity and its record, for every
element has a mark and every byte of a code is a byte of the arena; and what a node counts is within
its capacity. So the counters of arrays are bounded by what the arena has handed out.
-/

namespace GrowArena

variable {σ ν α : Type}

namespace Chain

/-- What the nodes have cost at least: their capacities and their records. -/
def charge [Segment ν α] (c : Chain ν) : Nat :=
  (c.capacities.map (· + nodeRecord.bytes)).sum

/-- Every node of the chain is as `B` says, and the nodes have cost, beside what else has cost
`rest`, no more than was handed out. -/
structure Afforded [Segment ν α] (B : ν → Prop) (rest : Nat) (s : Store σ) (c : Chain ν) :
    Prop where
  nodes : ∀ node ∈ c.nodes.toList, B node
  charge_le : rest + c.charge ≤ s.arena.used

variable [Segment ν α] {B : ν → Prop} {rest : Nat} {s s' : Store σ} {c : Chain ν}

theorem charge_append (c : Chain ν) (node : ν) :
    (c.append node).charge = c.charge + (Segment.capacity node + nodeRecord.bytes) := by
  simp [charge, capacities_append]

theorem charge_modify (c : Chain ν) (i : Nat) {f : ν → ν}
    (hf : ∀ node, Segment.capacity (f node) = Segment.capacity node) :
    (c.modify i f).charge = c.charge := by
  rw [charge, capacities_modify c i hf, charge]

/-- What is published in nodes within their capacities, and their records, were paid for. -/
theorem extent_add_records_le
    (h : ∀ node ∈ c.nodes.toList, Segment.published node ≤ Segment.capacity node) :
    c.extent + nodeRecord.bytes * c.capacities.length ≤ c.charge := by
  rw [extent, charge, capacities]
  generalize c.nodes.toList = nodes at h ⊢
  induction nodes with
  | nil => exact Nat.le_refl _
  | cons node nodes ih =>
      have hnode := h node List.mem_cons_self
      have hrest := ih fun n hn => h n (List.mem_cons_of_mem _ hn)
      simp only [List.foldr_cons, List.map_cons, List.length_cons, List.sum_cons, Nat.mul_add]
        at hrest ⊢
      omega

theorem capacity_add_record_le {node : ν} (h : node ∈ c.nodes.toList) :
    Segment.capacity node + nodeRecord.bytes ≤ c.charge :=
  List.le_sum_of_mem (List.mem_map_of_mem (List.mem_map_of_mem h))

namespace Afforded

theorem mono (h : Afforded B rest s c) (hused : s.arena.used ≤ s'.arena.used) :
    Afforded B rest s' c :=
  ⟨h.nodes, Nat.le_trans h.charge_le hused⟩

theorem singleton {node : ν} (hnode : B node) (hrest : rest ≤ s.arena.used)
    (hused : s.arena.used + (Segment.capacity node + nodeRecord.bytes) ≤ s'.arena.used) :
    Afforded B rest s' (.singleton node) := by
  refine ⟨?_, ?_⟩
  · intro n hn
    obtain rfl := List.mem_singleton.mp hn
    exact hnode
  · have hcharge : (Chain.singleton node).charge = Segment.capacity node + nodeRecord.bytes := by
      simp [charge, capacities, Chain.singleton]
    omega

/-- A new node has to be paid for. -/
theorem append (h : Afforded B rest s c) {node : ν} (hnode : B node)
    (hused : s.arena.used + (Segment.capacity node + nodeRecord.bytes) ≤ s'.arena.used) :
    Afforded B rest s' (c.append node) := by
  refine ⟨?_, ?_⟩
  · rw [toList_append]
    exact List.forall_mem_append.mpr ⟨h.nodes, List.forall_mem_singleton.mpr hnode⟩
  · have hcharge := h.charge_le
    rw [charge_append]
    omega

/-- A change of a node costs nothing. -/
theorem modify (h : Afforded B rest s c) (i : Nat) {f : ν → ν}
    (hf : ∀ node, c.nodes[i]? = some node → B node → B (f node))
    (hcapacity : ∀ node, Segment.capacity (f node) = Segment.capacity node) :
    Afforded B rest s (c.modify i f) := by
  refine ⟨?_, ?_⟩
  · intro n hn
    obtain ⟨j, hj⟩ := List.mem_iff_getElem?.mp hn
    rw [Chain.modify, Array.toList_modify, List.getElem?_modify] at hj
    obtain ⟨node, hnode, hchanged⟩ := Option.map_eq_some_iff.mp hj
    have hB := h.nodes node (List.mem_of_getElem? hnode)
    split at hchanged
    · rename_i hij
      obtain rfl := hij
      rw [← hchanged]
      exact hf node (by rwa [← Array.getElem?_toList]) hB
    · rwa [← hchanged]
  · rw [charge_modify c i hcapacity]
    exact h.charge_le

theorem tail (h : Afforded B rest s c) : B c.tail :=
  h.nodes _ c.tail_mem

/-- A change of the tail may make use of what is known of the tail. -/
theorem modify_last (h : Afforded B rest s c) {f : ν → ν} (hf : B c.tail → B (f c.tail))
    (hcapacity : ∀ node, Segment.capacity (f node) = Segment.capacity node) :
    Afforded B rest s (c.modify c.last f) := by
  refine h.modify c.last ?_ hcapacity
  intro node hnode hB
  rw [← Array.getElem?_toList, c.getElem?_last] at hnode
  obtain rfl := Option.some.inj hnode
  exact hf hB

end Afforded

end Chain

namespace Store

variable [SlabSource σ]

theorem obtained_of_allocateAll_ok {parts : List Request} {s s' : Store σ} {u : Unit}
    (h : allocateAll parts s = .ok u s') : s.arena.Obtained parts s'.arena := by
  induction parts generalizing s with
  | nil =>
      obtain ⟨-, rfl⟩ := EStateM.Result.ok.inj h
      exact .refl _
  | cons r rs ih =>
      rw [allocateAll_cons] at h
      cases hfirst : allocate r s with
      | error fault s₁ =>
          rw [hfirst] at h
          cases h
      | ok address s₁ =>
          rw [hfirst] at h
          exact (obtained_of_allocate_ok hfirst).trans (ih h)

end Store

namespace TypedNode

/-- Published slots are claimed, and no more are claimed than there are. -/
structure Bounded (n : TypedNode α) : Prop where
  published_le : n.published ≤ n.slots.size
  slots_le : n.slots.size ≤ n.claims
  claims_le : n.claims ≤ n.capacity

theorem bounded_new (capacity : Nat) : Bounded ({ capacity } : TypedNode α) :=
  ⟨Nat.le_refl _, Nat.le_refl _, Nat.zero_le _⟩

theorem Bounded.claim {n : TypedNode α} (h : n.Bounded) (hroom : n.HasRoom) : n.claim.Bounded := by
  obtain ⟨hpublished, hslots, -⟩ := h
  simp only [TypedNode.claim, if_pos hroom]
  refine ⟨?_, ?_, hroom⟩
  · rw [Array.size_push]
    exact Nat.le_succ_of_le hpublished
  · rw [Array.size_push]
    exact Nat.succ_le_succ hslots

theorem writtenFrom_le {slots : Array (Option α)} {position : Nat} (h : position ≤ slots.size) :
    writtenFrom slots position ≤ slots.size := by
  fun_induction writtenFrom slots position with
  | case1 position value hvalue ih =>
      obtain ⟨hlt, -⟩ := Array.getElem?_eq_some_iff.mp hvalue
      exact ih hlt
  | case2 => exact h

theorem Bounded.write {n : TypedNode α} (h : n.Bounded) (slot : Nat) (value : α) :
    (n.write slot value).Bounded := by
  have hsize : (n.slots.setIfInBounds slot (some value)).size = n.slots.size :=
    Array.size_setIfInBounds
  refine ⟨writtenFrom_le (hsize ▸ h.published_le), ?_, h.claims_le⟩
  exact Nat.le_trans (Nat.le_of_eq hsize) h.slots_le

end TypedNode

namespace TypedArray

variable [SlabSource σ] {rest : Nat} {s s' : Store σ} {a : TypedArray α}

/-- The store has paid for the array, beside what has cost `rest`, and the nodes are within their
capacities. -/
def Afforded (rest : Nat) (state : Store σ × TypedArray α) : Prop :=
  Chain.Afforded TypedNode.Bounded rest state.1 state.2.chain

theorem used_eq_of_allocateNode {f : Footprint} {capacity : Nat} {u : Unit}
    (h : allocateNode f capacity s = .ok u s') :
    s'.arena.used = s.arena.used + (f.size * capacity + capacity + nodeRecord.bytes) := by
  unfold allocateNode at h
  split at h
  · cases h
  · rw [(Store.obtained_of_allocateAll_ok h).used_eq, Nat.mul_comm f.size]
    simp only [nodeParts, List.map_cons, List.map_nil, List.sum_cons, List.sum_nil]
    omega

theorem used_of_allocateNode {f : Footprint} {capacity : Nat} {u : Unit}
    (h : allocateNode f capacity s = .ok u s') :
    s.arena.used + (capacity + nodeRecord.bytes) ≤ s'.arena.used := by
  rw [used_eq_of_allocateNode h]
  omega

theorem afforded_create {f : Footprint} {g : Growth} (hrest : rest ≤ s.arena.used)
    (h : create f g s = .ok a s') : Afforded rest (s', a) := by
  simp only [create] at h
  cases hg : g.validate with
  | error fault => simp [hg] at h
  | ok v =>
      cases hnode : allocateNode f g.initial s with
      | error fault s₁ => simp [hg, hnode] at h
      | ok u s₁ =>
          obtain ⟨rfl, rfl⟩ : _ = a ∧ s₁ = s' := by simpa [hg, hnode] using h
          exact .singleton (TypedNode.bounded_new _) hrest (used_of_allocateNode hnode)

/-- The counter of a full tail is taken back whether a node is appended or not. -/
theorem afforded_grow (h : Afforded rest (s, a)) (hfull : ¬ a.chain.tail.HasRoom) :
    Afforded rest (finalState (grow (s, a.claimTail))) := by
  have hleads := (calls_allocateNode a.claimTail.footprint
    (a.claimTail.growth.next a.claimTail.chain.tail.capacity) s).leads
  simp only [grow, pinTail_claimTail h.tail.claims_le hfull]
  cases hnode : allocateNode a.claimTail.footprint
      (a.claimTail.growth.next a.claimTail.chain.tail.capacity) s with
  | error fault s₁ =>
      rw [hnode] at hleads
      exact h.mono hleads.used_le
  | ok u s₁ =>
      have happended : Chain.Afforded TypedNode.Bounded rest s₁ (a.chain.append _) :=
        h.append (TypedNode.bounded_new _) (used_of_allocateNode hnode)
      exact happended.mono (Nat.le_refl _)

theorem afforded_claim {state : Store σ × TypedArray α} (h : Afforded rest state) :
    Afforded rest (finalState (claim state)) := by
  fun_induction claim state with
  | case1 state claimed hroom => exact h.modify_last (·.claim hroom) fun _ => rfl
  | case2 state claimed hroom state' hgrow ih =>
      have hgrown := afforded_grow h hroom
      rw [hgrow] at hgrown
      exact ih hgrown
  | case3 state claimed hroom fault state' hgrow =>
      have hgrown := afforded_grow h hroom
      rwa [hgrow] at hgrown

omit [SlabSource σ] in
theorem afforded_complete (h : Afforded rest (s, a)) (t : Ticket) (value : α) :
    Afforded rest (s, a.complete t value) :=
  h.modify t.node (fun _ _ hn => hn.write t.slot value) fun _ => rfl

theorem afforded_push (value : α) {state : Store σ × TypedArray α} (h : Afforded rest state) :
    Afforded rest (finalState (push value state)) := by
  have hclaim := afforded_claim h
  simp only [push]
  cases hresult : claim state with
  | ok t state' =>
      rw [hresult] at hclaim
      exact afforded_complete hclaim t value
  | error fault state' => rwa [hresult] at hclaim

end TypedArray

namespace PackedNode

/-- What is reserved and what is published is within the node. -/
structure Bounded (n : PackedNode) : Prop where
  cells_le : n.cells.size ≤ n.capacity
  published_le : n.published ≤ n.capacity

theorem bounded_new (capacity : Nat) : Bounded { capacity } :=
  ⟨Nat.zero_le _, Nat.zero_le _⟩

theorem length_window_le (n : PackedNode) (position stop : Nat) :
    (n.window position stop).length ≤ stop - position := by
  rw [window, List.length_map, List.length_range']
  exact Nat.min_le_left ..

theorem readyFrom_le {n : PackedNode} {position : Nat} (h : position ≤ n.capacity) :
    n.readyFrom position ≤ n.capacity := by
  fun_induction readyFrom n position with
  | case2 position cell hcell hready value width hdecode ih =>
      have hwidth := (Leb128.width_of_decode? hdecode).2
      have hwindow := n.length_window_le position n.capacity
      exact ih (by omega)
  | case1 | case3 | case4 => exact h

theorem Bounded.reserve {n : PackedNode} (h : n.Bounded) (hroom : n.HasRoom) {width : Nat}
    (hwidth : width ≤ margin) : (n.reserve width).Bounded := by
  have hcells := h.cells_le
  simp only [HasRoom] at hroom
  refine ⟨?_, h.published_le⟩
  simp only [PackedNode.reserve, Array.size_append, Array.size_replicate]
  omega

theorem Bounded.store {n : PackedNode} (h : n.Bounded) (position : Nat) (byte : UInt8) :
    (n.store position byte).Bounded :=
  ⟨by simpa [PackedNode.store] using h.cells_le, h.published_le⟩

theorem Bounded.finish {n : PackedNode} (h : n.Bounded) (position : Nat) :
    (n.finish position).Bounded :=
  ⟨by simpa [PackedNode.finish, publish] using h.cells_le, readyFrom_le h.published_le⟩

end PackedNode

namespace PackedArray

variable [SlabSource σ] {rest : Nat} {s s' : Store σ} {a : PackedArray}

/-- The store has paid for the array, beside what has cost `rest`, and the nodes are within their
capacities. -/
def Afforded (rest : Nat) (state : Store σ × PackedArray) : Prop :=
  Chain.Afforded PackedNode.Bounded rest state.1 state.2.chain

theorem used_of_allocateNode {capacity : Nat} {u : Unit}
    (h : allocateNode capacity s = .ok u s') :
    s.arena.used + (capacity + nodeRecord.bytes) ≤ s'.arena.used := by
  have hused := (Store.obtained_of_allocateAll_ok h).used_eq
  simp only [nodeParts, List.map_cons, List.map_nil, List.sum_cons, List.sum_nil] at hused
  omega

theorem afforded_create {g : Growth} (hrest : rest ≤ s.arena.used)
    (h : create g s = .ok a s') : Afforded rest (s', a) := by
  simp only [create] at h
  cases hg : g.validate with
  | error fault => simp [hg] at h
  | ok v =>
      cases hnode : allocateNode (roomy g.initial) s with
      | error fault s₁ => simp [hg, hnode] at h
      | ok u s₁ =>
          obtain ⟨rfl, rfl⟩ : _ = a ∧ s₁ = s' := by simpa [hg, hnode] using h
          exact .singleton (PackedNode.bounded_new _) hrest (used_of_allocateNode hnode)

theorem afforded_grow {state : Store σ × PackedArray} (h : Afforded rest state) :
    Afforded rest (finalState (grow state)) := by
  obtain ⟨s, a⟩ := state
  have hleads := (calls_grow s a).leads
  simp only [grow] at hleads ⊢
  cases hnode : allocateNode (roomy (a.growth.next a.chain.tail.capacity)) s with
  | error fault s₁ =>
      rw [hnode] at hleads
      exact h.mono hleads.used_le
  | ok u s₁ =>
      have happended : Chain.Afforded PackedNode.Bounded rest s₁ (a.chain.append _) :=
        h.append (PackedNode.bounded_new _) (used_of_allocateNode hnode)
      exact happended.mono (Nat.le_refl _)

theorem afforded_reserve {width : Nat} (hwidth : width ≤ PackedNode.margin)
    {state : Store σ × PackedArray} (h : Afforded rest state) :
    Afforded rest (finalState (reserve width state)) := by
  fun_induction reserve width state with
  | case1 state hroom => exact h.modify_last (·.reserve hroom hwidth) fun _ => rfl
  | case2 state hroom state' hgrow ih =>
      have hgrown := afforded_grow h
      rw [hgrow] at hgrown
      exact ih hgrown
  | case3 state hroom fault state' hgrow =>
      have hgrown := afforded_grow h
      rwa [hgrow] at hgrown

omit [SlabSource σ] in
theorem afforded_store (h : Afforded rest (s, a)) (spot : Spot) (i : Nat) (byte : UInt8) :
    Afforded rest (s, a.store spot i byte) :=
  h.modify spot.node (fun _ _ hn => hn.store _ byte) fun _ => rfl

omit [SlabSource σ] in
theorem afforded_storeFrom (h : Afforded rest (s, a)) (spot : Spot) (i : Nat)
    (bytes : List UInt8) : Afforded rest (s, a.storeFrom spot i bytes) := by
  induction bytes generalizing a i with
  | nil => exact h
  | cons byte bytes ih => exact ih (afforded_store h spot i byte) (i + 1)

omit [SlabSource σ] in
theorem afforded_finish (h : Afforded rest (s, a)) (spot : Spot) :
    Afforded rest (s, a.finish spot) :=
  h.modify spot.node (fun _ _ hn => hn.finish spot.offset) fun _ => rfl

theorem length_encode_le_margin (word : UInt32) :
    (Leb128.encode word).length ≤ PackedNode.margin := by
  have hwidth := Leb128.width_le word
  rw [← Leb128.length_encode, Leb128.maxWidth] at hwidth
  simp only [PackedNode.margin]
  omega

theorem afforded_push (word : UInt32) {state : Store σ × PackedArray} (h : Afforded rest state) :
    Afforded rest (finalState (push word state)) := by
  have hreserve := afforded_reserve (length_encode_le_margin word) h
  simp only [push]
  cases hresult : reserve (Leb128.encode word).length state with
  | ok spot state' =>
      rw [hresult] at hreserve
      exact afforded_finish (afforded_storeFrom hreserve spot 0 _) spot
  | error fault state' => rwa [hresult] at hreserve

end PackedArray

end GrowArena
