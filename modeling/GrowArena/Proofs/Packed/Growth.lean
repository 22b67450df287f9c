import GrowArena.Proofs.Chain.Growth
import GrowArena.Proofs.Packed.Contents

/-!
How packed arrays grow. A code goes into the tail while more bytes are free there than any code
needs, and otherwise into a new node; so at the end of a node two bytes are never reserved, and no
more than six are left when another node comes behind it.
-/

namespace GrowArena

open Leb128

variable {σ : Type}

namespace PackedNode

theorem size_reserve (n : PackedNode) (v : UInt32) :
    (n.reserve (encode v).length).cells.size = n.cells.size + width v := by
  rw [reserve, Array.size_append, Array.size_replicate, length_encode]

/-- A code that is reserved where there is room leaves two bytes. -/
theorem size_reserve_le {n : PackedNode} (hroom : n.HasRoom) (v : UInt32) :
    (n.reserve (encode v).length).cells.size + 2 ≤ n.capacity := by
  have hwidth := width_le v
  rw [size_reserve]
  simp only [HasRoom, margin, maxWidth] at hroom hwidth
  omega

end PackedNode

namespace PackedArray

/-- Two bytes of a node are never reserved, and no more than six are left when another node comes
behind it. -/
def growthLaw (g : Growth) : GrowthLaw PackedNode where
  first := roomy g.initial
  next capacity := roomy (g.next capacity)
  Sound n := n.cells.size + 2 ≤ n.capacity
  Closed n := n.capacity ≤ n.cells.size + 6
  Begun _ := True

/-- The array was made with these settings and has grown by them. -/
structure Grown (g : Growth) (a : PackedArray) : Prop where
  growth_eq : a.growth = g
  chain : a.chain.Grown (growthLaw g)

variable {g : Growth} {a : PackedArray}

theorem grown_made (g : Growth) : (made g).Grown g :=
  ⟨rfl, .singleton rfl (two_le_roomy g.initial)⟩

theorem Grown.takeBytes (h : a.Grown g) (hroom : a.chain.tail.HasRoom) (v : UInt32) :
    (a.takeBytes (encode v).length).Grown g :=
  ⟨h.growth_eq,
    h.chain.modify_last (fun _ => rfl) (fun _ => PackedNode.size_reserve_le hroom v) trivial⟩

/-- A node comes when few bytes of the tail are free. -/
theorem Grown.takeBytes_append (h : a.Grown g) (hshort : ¬ a.chain.tail.HasRoom) (v : UInt32) :
    ((a.append (roomy (a.growth.next a.chain.tail.capacity))).takeBytes
      (encode v).length).Grown g := by
  have hnew := hasRoom_append a (a.growth.next a.chain.tail.capacity)
  rw [append, Chain.tail_append] at hnew
  refine ⟨h.growth_eq, ?_⟩
  simp only [PackedArray.takeBytes, append, Chain.append_modify_last]
  apply h.chain.append
  · exact congrArg (fun g : Growth => roomy (g.next a.chain.tail.capacity)) h.growth_eq
  · exact PackedNode.size_reserve_le hnew v
  · simp only [PackedNode.HasRoom, PackedNode.margin] at hshort
    simp only [growthLaw]
    omega
  · trivial

theorem Grown.modify (h : a.Grown g) (i : Nat) {f : PackedNode → PackedNode}
    (hcapacity : ∀ n, (f n).capacity = n.capacity)
    (hsize : ∀ n, (f n).cells.size = n.cells.size) :
    Grown g { a with chain := a.chain.modify i f } := by
  refine ⟨h.growth_eq, h.chain.modify_of_iff i hcapacity ?_ ?_ fun _ => id⟩
  all_goals
    intro n
    simp only [growthLaw, hcapacity, hsize]
    exact id

theorem Grown.store (h : a.Grown g) (spot : Spot) (i : Nat) (byte : UInt8) :
    (a.store spot i byte).Grown g :=
  h.modify spot.node (fun _ => rfl) fun _ => Array.size_modify

theorem Grown.storeFrom (h : a.Grown g) (spot : Spot) (i : Nat) (bytes : List UInt8) :
    (a.storeFrom spot i bytes).Grown g := by
  induction bytes generalizing a i with
  | nil => exact h
  | cons byte bytes ih => exact ih (h.store spot i byte) (i + 1)

theorem Grown.finish (h : a.Grown g) (spot : Spot) : (a.finish spot).Grown g :=
  h.modify spot.node (fun _ => rfl) fun _ => Array.size_modify

section

variable [SlabSource σ]

theorem grown_reserve (v : UInt32) {state : Store σ × PackedArray} (h : state.2.Grown g) :
    (finalState (reserve (encode v).length state)).2.Grown g := by
  obtain ⟨s, a⟩ := state
  by_cases hroom : a.chain.tail.HasRoom
  · rw [reserve_of_room hroom]
    exact h.takeBytes hroom v
  · rw [reserve_of_full hroom, grow]
    cases allocateNode (roomy (a.growth.next a.chain.tail.capacity)) s with
    | ok u s' =>
        dsimp only
        rw [reserve_of_room (hasRoom_append a _)]
        exact h.takeBytes_append hroom v
    | error fault s' => exact h

theorem grown_push (v : UInt32) {state : Store σ × PackedArray} (h : state.2.Grown g) :
    (finalState (push v state)).2.Grown g := by
  have hreserve := grown_reserve v h
  simp only [push]
  cases hresult : reserve (encode v).length state with
  | ok spot state' =>
      rw [hresult] at hreserve
      exact (hreserve.storeFrom spot 0 _).finish spot
  | error fault state' =>
      rw [hresult] at hreserve
      exact hreserve

theorem grown_pushAll (words : List UInt32) {state : Store σ × PackedArray}
    (h : state.2.Grown g) : (finalState (pushAll words state)).2.Grown g :=
  pushEach_induct (P := fun state : Store σ × PackedArray => state.2.Grown g)
    (fun v _ => grown_push v) words h

/-- One pass of a push: it reserves bytes of the tail, or appends a node. -/
def reservePass (width : Nat) (state : Store σ × PackedArray) :
    EStateM.Result Fault (Store σ × PackedArray) Spot ⊕ (Store σ × PackedArray) :=
  if state.2.chain.tail.HasRoom then
    .inl (.ok state.2.nextSpot (state.1, state.2.takeBytes width))
  else
    match grow state with
    | .ok () state => .inr state
    | .error fault state => .inl (.error fault state)

/-- After a node is appended the next pass is the last. -/
theorem passes_reserve (width : Nat) (state : Store σ × PackedArray) :
    ∃ n, n ≤ 2 ∧ Passes (reservePass width) n state (reserve width state) := by
  have hfound : ∀ state : Store σ × PackedArray, state.2.chain.tail.HasRoom →
      Passes (reservePass width) 1 state (reserve width state) := by
    intro state hroom
    apply Passes.last
    rw [reservePass, if_pos hroom, reserve_of_room hroom]
  by_cases hroom : state.2.chain.tail.HasRoom
  · exact ⟨1, Nat.le_succ 1, hfound state hroom⟩
  · have hreserve := reserve_of_full (s := state.1) hroom width
    rw [hreserve]
    cases hgrow : grow state with
    | ok u state' =>
        refine ⟨2, Nat.le_refl _, .again ?_ (hfound state' (hasRoom_of_grow hgrow))⟩
        rw [reservePass, if_neg hroom, hgrow]
    | error fault state' =>
        refine ⟨1, Nat.le_succ 1, .last ?_⟩
        rw [reservePass, if_neg hroom, hgrow]

end

/-- The capacities are those that the settings give one after the other. Two bytes of a node are
never reserved, and not more than six are left of a node that another came behind. -/
structure Shaped (g : Growth) (a : PackedArray) : Prop where
  capacities_eq : a.chain.capacities =
    List.iterate (fun capacity => max (g.next capacity) 7) (max g.initial 7)
      a.chain.capacities.length
  size_le : ∀ n ∈ a.chain.nodes.toList, n.cells.size + 2 ≤ n.capacity
  closed_le : ∀ n ∈ a.chain.closed, n.capacity ≤ n.cells.size + 6

theorem Grown.shaped (h : a.Grown g) : a.Shaped g where
  capacities_eq := h.chain.capacities_eq
  size_le := h.chain.sound
  closed_le _ hn := h.chain.closed_of_mem hn

/-- What is not taken of the nodes is no more than six bytes a node before the tail, and what is
free in the tail. -/
theorem Grown.sum_capacities_le (h : a.Grown g)
    (hpublished : ∀ n ∈ a.chain.nodes.toList, n.published = n.cells.size) :
    a.chain.capacities.sum ≤ a.byteSize + 6 * a.chain.closed.length +
      (a.chain.tail.capacity - a.chain.tail.cells.size) := by
  have htail := hpublished _ a.chain.tail_mem
  have hclosed : ∀ nodes : List PackedNode,
      (∀ n ∈ nodes, n.capacity ≤ n.cells.size + 6 ∧ n.published = n.cells.size) →
        ∀ rest, (nodes.map PackedNode.capacity).sum + rest ≤
          nodes.foldr (fun n extent => n.published + extent) rest + 6 * nodes.length := by
    intro nodes hnodes rest
    induction nodes with
    | nil => simp
    | cons n nodes ih =>
        obtain ⟨hcapacity, hextent⟩ := hnodes n List.mem_cons_self
        have hrest := ih fun m hm => hnodes m (List.mem_cons_of_mem _ hm)
        simp only [List.map_cons, List.sum_cons, List.foldr_cons, List.length_cons]
        omega
  have hall := hclosed a.chain.closed
    (fun n hn => ⟨h.chain.closed_of_mem hn, hpublished n (Chain.mem_of_mem_closed hn)⟩)
    a.chain.tail.published
  have hsize : a.byteSize =
      a.chain.closed.foldr (fun n extent => n.published + extent) a.chain.tail.published := by
    rw [byteSize, Chain.extent, Chain.toList_eq, List.foldr_append]
    rfl
  have hsum : a.chain.capacities.sum =
      (a.chain.closed.map PackedNode.capacity).sum + a.chain.tail.capacity :=
    a.chain.sum_capacities
  omega

/-- What becomes of a push. The code of the word goes behind the others of the tail; if fewer than
seven bytes are free there, a node is appended and it goes to the front of that; and if the node is
refused, nothing has happened to the array. -/
inductive Pushes [SlabSource σ] (s : Store σ) (a : PackedArray) (v : UInt32) :
    EStateM.Result Fault (Store σ × PackedArray) Unit → Prop
  | placed {c : Chain PackedNode} (hroom : 7 ≤ a.chain.tail.capacity - a.chain.tail.cells.size)
      (hclosed : c.closed = a.chain.closed) (hcapacity : c.tail.capacity = a.chain.tail.capacity)
      (hcells : c.tail.cells.toList = a.chain.tail.cells.toList ++ codeCells v) :
      Pushes s a v (.ok () (s, { a with chain := c }))
  | appended {c : Chain PackedNode} {s' : Store σ}
      (hshort : a.chain.tail.capacity - a.chain.tail.cells.size < 7)
      (hnode : allocateNode (max (a.growth.next a.chain.tail.capacity) 7) s = .ok () s')
      (hclosed : c.closed = a.chain.nodes.toList)
      (hcapacity : c.tail.capacity = max (a.growth.next a.chain.tail.capacity) 7)
      (hcells : c.tail.cells.toList = codeCells v) :
      Pushes s a v
        (.ok () (s'.record (.packedNodeAppended (max (a.growth.next a.chain.tail.capacity) 7)),
          { a with chain := c }))
  | refused {s' : Store σ} {fault : Fault}
      (hshort : a.chain.tail.capacity - a.chain.tail.cells.size < 7)
      (hnode : allocateNode (max (a.growth.next a.chain.tail.capacity) 7) s = .error fault s') :
      Pushes s a v (.error fault (s', a))

/-- A code at the front of a new node. -/
theorem put_append (a : PackedArray) (capacity : Nat) (v : UInt32) :
    (a.append capacity).put v =
      { a with chain := a.chain.append (PackedNode.put { capacity } v) } := by
  simp only [put, append, Chain.append_modify_last]

theorem pushes [SlabSource σ] (s : Store σ) (a : PackedArray) (v : UInt32) :
    Pushes s a v (push v (s, a)) := by
  by_cases hroom : a.chain.tail.HasRoom
  · obtain ⟨m, hput, hcells, hcapacity, -⟩ := a.chain.tail.exists_put_eq_publish v
    rw [push_of_room hroom]
    refine .placed hroom (Chain.closed_modify_last ..) ?_ ?_
    · rw [Chain.tail_modify_last, hput]
      exact hcapacity
    · rw [Chain.tail_modify_last, hput]
      exact hcells
  · have hshort := Nat.lt_of_not_le hroom
    rw [push_of_full hroom]
    cases hnode : allocateNode (roomy (a.growth.next a.chain.tail.capacity)) s with
    | error fault s' => exact .refused hshort hnode
    | ok u s' =>
        obtain ⟨m, hput, hcells, hcapacity, -⟩ := PackedNode.exists_put_eq_publish
          { capacity := roomy (a.growth.next a.chain.tail.capacity) } v
        dsimp only
        rw [put_append]
        refine .appended hshort hnode ?_ ?_ ?_
        · rw [Chain.closed, Chain.toList_append, List.dropLast_concat]
        · rw [Chain.tail_append, hput]
          exact hcapacity
        · rw [Chain.tail_append, hput]
          exact hcells

end PackedArray

end GrowArena
