import GrowArena.Proofs.Arena.Charges
import GrowArena.Proofs.Chain.Growth
import Mathlib.Order.Bounds.Basic

/-!
How typed arrays grow. A node is appended by the claim that finds every slot taken, and that claim
gets its first slot; so the capacities are the fewest of a fixed sequence that have a slot for every
claim, whichever of the claims are complete and whatever nodes were refused on the way.
-/

namespace GrowArena

variable {σ α : Type}

namespace TypedNode

/-- The node with a further value in its next slot. -/
theorem Orderly.slots_put {n : TypedNode α} (h : n.Orderly) (hroom : n.HasRoom) (v : α) :
    (n.put v).slots = n.slots.push (some v) := by
  have hput : (n.put v).slots = (n.slots.push none).setIfInBounds n.claims (some v) := by
    simp [put, TypedNode.write, publish, TypedNode.claim, hroom]
  rw [hput, h.claims_eq]
  apply Array.ext'
  simp

end TypedNode

namespace TypedArray

/-- Every slot of a node is claimed before another node comes behind it, and a node comes with a
claim. -/
def growthLaw (g : Growth) : GrowthLaw (TypedNode α) where
  first := g.initial
  next := g.next
  Sound n := n.claims ≤ n.capacity
  Closed n := n.claims = n.capacity
  Begun n := 0 < n.claims

/-- The array was made with these settings and has grown by them. -/
structure Grown (f : Footprint) (g : Growth) (a : TypedArray α) : Prop where
  footprint_eq : a.footprint = f
  growth_eq : a.growth = g
  chain : a.chain.Grown (growthLaw g)

variable {f : Footprint} {g : Growth} {a : TypedArray α}

theorem grown_made (f : Footprint) (g : Growth) : (made f g : TypedArray α).Grown f g :=
  ⟨rfl, rfl, .singleton rfl (Nat.zero_le _)⟩

theorem Grown.claims_le (h : a.Grown f g) : a.chain.tail.claims ≤ a.chain.tail.capacity :=
  h.chain.sound _ a.chain.tail_mem

theorem Grown.claimTail (h : a.Grown f g) (hroom : a.chain.tail.HasRoom) :
    a.claimTail.Grown f g :=
  ⟨h.footprint_eq, h.growth_eq,
    h.chain.modify_last (fun _ => rfl) (fun _ => hroom) (Nat.succ_pos _)⟩

/-- A node comes when all slots of the tail are claimed, and with a claim. -/
theorem Grown.claimTail_append (h : a.Grown f g) (hfull : ¬ a.chain.tail.HasRoom) :
    (a.append (a.growth.next a.chain.tail.capacity)).claimTail.Grown f g := by
  have hnext : 1 ≤ a.growth.next a.chain.tail.capacity := Growth.one_le_next ..
  refine ⟨h.footprint_eq, h.growth_eq, ?_⟩
  change ((a.chain.append _).modify (a.chain.append _).last TypedNode.claim).Grown _
  rw [Chain.append_modify_last]
  apply h.chain.append
  · exact congrArg (Growth.next · _) h.growth_eq
  · exact hnext
  · exact Nat.le_antisymm h.claims_le (Nat.le_of_not_lt hfull)
  · exact Nat.succ_pos _

theorem Grown.complete (h : a.Grown f g) (t : Ticket) (value : α) :
    (a.complete t value).Grown f g :=
  ⟨h.footprint_eq, h.growth_eq,
    h.chain.modify_of_iff t.node (fun _ => rfl) (fun _ => id) (fun _ => id) (fun _ => id)⟩

section

variable [SlabSource σ]

theorem grown_claim {state : Store σ × TypedArray α} (h : state.2.Grown f g) :
    (finalState (claim state)).2.Grown f g := by
  obtain ⟨s, a⟩ := state
  by_cases hroom : a.chain.tail.HasRoom
  · rw [claim_of_room hroom]
    exact h.claimTail hroom
  · rw [claim_of_full_of_le h.claims_le hroom]
    cases allocateNode a.footprint (a.growth.next a.chain.tail.capacity) s with
    | ok u s' => exact h.claimTail_append hroom
    | error fault s' => exact h

theorem grown_push (value : α) {state : Store σ × TypedArray α} (h : state.2.Grown f g) :
    (finalState (push value state)).2.Grown f g := by
  have hclaim := grown_claim h
  simp only [push]
  cases hresult : claim state with
  | ok t state' =>
      rw [hresult] at hclaim
      exact hclaim.complete t value
  | error fault state' =>
      rw [hresult] at hclaim
      exact hclaim

theorem grown_pushAll (values : List α) {state : Store σ × TypedArray α}
    (h : state.2.Grown f g) : (finalState (pushAll values state)).2.Grown f g :=
  pushEach_induct (P := fun state : Store σ × TypedArray α => state.2.Grown f g)
    (fun value _ => grown_push value) values h

/-- One pass of a push: it claims a slot of the tail, or appends a node. -/
def claimPass (state : Store σ × TypedArray α) :
    EStateM.Result Fault (Store σ × TypedArray α) Ticket ⊕ (Store σ × TypedArray α) :=
  if state.2.chain.tail.HasRoom then
    .inl (.ok state.2.nextTicket (state.1, state.2.claimTail))
  else
    match grow (state.1, state.2.claimTail) with
    | .ok () state => .inr state
    | .error fault state => .inl (.error fault state)

/-- After a node is appended the next pass is the last. -/
theorem passes_claim (state : Store σ × TypedArray α) :
    ∃ n, n ≤ 2 ∧ Passes claimPass n state (claim state) := by
  have hfound : ∀ state : Store σ × TypedArray α, state.2.chain.tail.HasRoom →
      Passes claimPass 1 state (claim state) := by
    intro state hroom
    apply Passes.last
    rw [claimPass, if_pos hroom, claim_of_room hroom]
  by_cases hroom : state.2.chain.tail.HasRoom
  · exact ⟨1, Nat.le_succ 1, hfound state hroom⟩
  · have hclaim := claim_of_full (s := state.1) hroom
    rw [hclaim]
    cases hgrow : grow (state.1, state.2.claimTail) with
    | ok u state' =>
        refine ⟨2, Nat.le_refl _, .again ?_ (hfound state' (hasRoom_of_grow hgrow))⟩
        rw [claimPass, if_neg hroom, hgrow]
    | error fault state' =>
        refine ⟨1, Nat.le_succ 1, .last ?_⟩
        rw [claimPass, if_neg hroom, hgrow]

end

/-- The slots that are claimed. -/
def claimed (a : TypedArray α) : Nat := (a.chain.nodes.toList.map TypedNode.claims).sum

/-- The capacities are the fewest that have a slot for every claim, of those that the settings give
one after the other. All slots of the nodes before the tail are claimed, and one of the tail is, if
it is not the head. -/
structure Shaped (g : Growth) (a : TypedArray α) : Prop where
  capacities_eq : a.chain.capacities = List.iterate g.next g.initial a.chain.capacities.length
  shortest : IsLeast {k | 0 < k ∧ a.claimed ≤ (List.iterate g.next g.initial k).sum}
    a.chain.capacities.length
  full : ∀ n ∈ a.chain.closed, n.claims = n.capacity
  begun : a.chain.closed ≠ [] → 0 < a.chain.tail.claims

theorem claimed_eq (a : TypedArray α) :
    a.claimed = (a.chain.closed.map TypedNode.claims).sum + a.chain.tail.claims := by
  rw [claimed, Chain.toList_eq, List.map_append, List.sum_append, List.map_singleton,
    List.sum_singleton]

theorem Grown.sum_capacities_eq (h : a.Grown f g) :
    a.chain.capacities.sum =
      (a.chain.closed.map TypedNode.claims).sum + a.chain.tail.capacity := by
  have hclosed : a.chain.closed.map TypedNode.claims = a.chain.closed.map TypedNode.capacity :=
    List.map_congr_left fun n hn => h.chain.closed_of_mem hn
  rw [hclosed]
  exact a.chain.sum_capacities

/-- The tail has room as long as there is a slot that is not claimed. -/
theorem Grown.hasRoom_iff (h : a.Grown f g) :
    a.chain.tail.HasRoom ↔ a.claimed < a.chain.capacities.sum := by
  rw [claimed_eq, h.sum_capacities_eq, TypedNode.HasRoom]
  omega

theorem Grown.claimed_le (h : a.Grown f g) : a.claimed ≤ a.chain.capacities.sum := by
  have htail := h.claims_le
  rw [claimed_eq, h.sum_capacities_eq]
  omega

theorem Grown.shaped (h : a.Grown f g) : a.Shaped g where
  capacities_eq := h.chain.capacities_eq
  shortest := by
    refine ⟨⟨?_, ?_⟩, ?_⟩
    · rw [Chain.length_capacities]
      exact Nat.succ_pos _
    · have hall := h.chain.capacities_eq
      simp only [growthLaw] at hall
      rw [← hall]
      exact h.claimed_le
    · rintro k ⟨hpos, hslots⟩
      by_contra hless
      have hlength := a.chain.length_capacities
      have hlast := a.chain.last_eq_length_closed
      -- Fewer capacities are at most those of the nodes before the tail, which are all claimed.
      have hclosed : List.iterate g.next g.initial a.chain.closed.length =
          a.chain.closed.map TypedNode.claims := by
        rw [List.map_congr_left fun n hn => h.chain.closed_of_mem hn]
        exact h.chain.capacities_closed.symm
      obtain ⟨more, hmore⟩ : ∃ more, a.chain.closed.length = k + more :=
        Nat.exists_eq_add_of_le (by omega)
      have hbegun : 0 < a.chain.tail.claims :=
        h.chain.begun_tail (List.length_pos_iff.mp (by omega))
      have hsum := congrArg List.sum hclosed
      rw [hmore, List.iterate_add, List.sum_append] at hsum
      have hcount := a.claimed_eq
      omega
  full _ hn := h.chain.closed_of_mem hn
  begun hclosed := h.chain.begun_tail hclosed

/-- What a push comes to while no other is in flight. The value gets the next slot of the tail; if
there is none, a node is appended and it gets the first slot of that; and if the node is refused,
nothing has happened to the array. -/
inductive Pushes [SlabSource σ] (s : Store σ) (a : TypedArray α) (v : α) :
    EStateM.Result Fault (Store σ × TypedArray α) Unit → Prop
  | placed {c : Chain (TypedNode α)} (hroom : a.claimed < a.chain.capacities.sum)
      (hclosed : c.closed = a.chain.closed) (hcapacity : c.tail.capacity = a.chain.tail.capacity)
      (hslots : c.tail.slots = a.chain.tail.slots.push (some v)) :
      Pushes s a v (.ok () (s, { a with chain := c }))
  | appended {c : Chain (TypedNode α)} {s' : Store σ} (hfull : a.claimed = a.chain.capacities.sum)
      (hnode : allocateNode a.footprint (a.growth.next a.chain.tail.capacity) s = .ok () s')
      (hclosed : c.closed = a.chain.nodes.toList)
      (hcapacity : c.tail.capacity = a.growth.next a.chain.tail.capacity)
      (hslots : c.tail.slots = #[some v]) :
      Pushes s a v
        (.ok () (s'.record (.typedNodeAppended (a.growth.next a.chain.tail.capacity)),
          { a with chain := c }))
  | refused {s' : Store σ} {fault : Fault} (hfull : a.claimed = a.chain.capacities.sum)
      (hnode : allocateNode a.footprint (a.growth.next a.chain.tail.capacity) s =
        .error fault s') : Pushes s a v (.error fault (s', a))

/-- A value in the first slot of a new node. -/
theorem put_append (a : TypedArray α) (capacity : Nat) (v : α) :
    (a.append capacity).put v =
      { a with chain := a.chain.append (TypedNode.put { capacity } v) } := by
  simp only [put, append, Chain.append_modify_last]

theorem Grown.pushes [SlabSource σ] (h : a.Grown f g) {parts : List (List α)}
    (hparts : a.Holds parts) (s : Store σ) (v : α) : Pushes s a v (push v (s, a)) := by
  obtain ⟨_, _, _, htail, _⟩ := Chain.exists_tail_of_forall₂ hparts
  by_cases hroom : a.chain.tail.HasRoom
  · rw [push_of_room hroom]
    refine .placed (h.hasRoom_iff.mp hroom) (Chain.closed_modify_last ..) ?_ ?_
    · rw [Chain.tail_modify_last]
      rfl
    · rw [Chain.tail_modify_last]
      exact htail.orderly.slots_put hroom v
  · have hfull : a.claimed = a.chain.capacities.sum :=
      Nat.le_antisymm h.claimed_le (Nat.le_of_not_lt fun hlt => hroom (h.hasRoom_iff.mpr hlt))
    rw [push_of_full h.claims_le hroom]
    cases hnode : allocateNode a.footprint (a.growth.next a.chain.tail.capacity) s with
    | error fault s' => exact .refused hfull hnode
    | ok u s' =>
        have hnew : TypedNode.HasRoom
            ({ capacity := a.growth.next a.chain.tail.capacity } : TypedNode α) :=
          Growth.one_le_next ..
        dsimp only
        rw [put_append]
        refine .appended hfull hnode ?_ ?_ ?_
        · rw [Chain.closed, Chain.toList_append, List.dropLast_concat]
        · rw [Chain.tail_append]
          rfl
        · rw [Chain.tail_append]
          exact (TypedNode.orderly_new _).slots_put hnew v

/-- What the nodes have cost: their elements, a mark for each of them, and their records. -/
def cost (a : TypedArray α) : Nat :=
  (a.chain.capacities.map fun c => a.footprint.size * c + c + 48).sum

theorem cost_put (a : TypedArray α) (v : α) : (a.put v).cost = a.cost := by
  have hcapacities : (a.put v).chain.capacities = a.chain.capacities :=
    Chain.capacities_modify a.chain _ fun _ => rfl
  rw [cost, hcapacities]
  rfl

theorem cost_put_append (a : TypedArray α) (capacity : Nat) (v : α) :
    ((a.append capacity).put v).cost =
      a.cost + (a.footprint.size * capacity + capacity + 48) := by
  rw [cost_put, cost, append, Chain.capacities_append, List.map_append, List.sum_append]
  rfl

section

variable [SlabSource σ] {s s' : Store σ} {a' : TypedArray α} {u : Unit}

/-- What is used for a new array is what its node costs. -/
theorem used_eq_of_create (h : create f g s = .ok a s') :
    s'.arena.used = s.arena.used + a.cost := by
  simp only [create] at h
  cases hg : g.validate with
  | error fault => simp [hg] at h
  | ok v =>
      cases hnode : allocateNode f g.initial s with
      | error fault s₁ => simp [hg, hnode] at h
      | ok u s₁ =>
          obtain ⟨rfl, rfl⟩ : _ = a ∧ s₁ = s' := by simpa [hg, hnode] using h
          exact used_eq_of_allocateNode hnode

/-- What a push uses is what the array costs more after it. -/
theorem Grown.used_of_push (h : a.Grown f g) {v : α} (hpush : push v (s, a) = .ok u (s', a')) :
    s'.arena.used + a.cost = s.arena.used + a'.cost := by
  by_cases hroom : a.chain.tail.HasRoom
  · rw [push_of_room hroom] at hpush
    obtain ⟨rfl, rfl⟩ : s = s' ∧ a.put v = a' := by simpa using hpush
    rw [cost_put]
  · rw [push_of_full h.claims_le hroom] at hpush
    cases hnode : allocateNode a.footprint (a.growth.next a.chain.tail.capacity) s with
    | error fault s₁ => simp [hnode] at hpush
    | ok u s₁ =>
        obtain ⟨rfl, rfl⟩ : s₁.record _ = s' ∧ (a.append _).put v = a' := by
          simpa [hnode] using hpush
        have hused := used_eq_of_allocateNode hnode
        rw [cost_put_append]
        simp only [Store.record, nodeRecord] at hused ⊢
        omega

theorem Grown.used_of_pushAll (h : a.Grown f g) {values : List α}
    (hpush : pushAll values (s, a) = .ok u (s', a')) :
    s'.arena.used + a.cost = s.arena.used + a'.cost := by
  have hall := pushEach_ok_induct (P := fun state : Store σ × TypedArray α =>
      state.2.Grown f g ∧ state.1.arena.used + a.cost = s.arena.used + state.2.cost)
    (fun value state state' hstate hok => ?_) values ⟨h, rfl⟩ hpush
  · exact hall.2
  · obtain ⟨hgrown, hused⟩ := hstate
    have hnext := grown_push value hgrown
    rw [hok] at hnext
    have hmore := hgrown.used_of_push hok
    exact ⟨hnext, by omega⟩

end

end TypedArray

end GrowArena
