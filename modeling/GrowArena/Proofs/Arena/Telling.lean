import GrowArena.Proofs.Arena.Parts
import GrowArena.Proofs.Chain.Growth

/-!
What an arena and its arrays tell of what they do. An event comes with every chunk that joins the
chain, with every slab that is refused, and with every node that is appended to an array, and none
comes otherwise. What two steps tell is what the one tells and then the other.
-/

namespace GrowArena

variable {σ τ α β γ δ ε ν : Type}

namespace Event

/-- The bytes of the chunk that was installed. -/
def installed? : Event → Option Nat
  | chunkInstalled bytes => some bytes
  | _ => none

def isRefusal : Event → Bool
  | chunkRefused .. => true
  | _ => false

def isRewinding : Event → Bool
  | rewound .. => true
  | _ => false

def isAppending : Event → Bool
  | typedNodeAppended _ | packedNodeAppended _ => true
  | _ => false

end Event

/-- The event that goes with a fault: a slab was refused that has room for a block, or for the
request behind any padding. -/
def Fault.refusals (blockSize : Nat) : Fault → List Event
  | outOfMemory requested alignment _ _ =>
      [.chunkRefused requested (Chunk.header + max blockSize (requested + (alignment - 1)))]
  | _ => []

/-- The fault with which a computation failed, if it did. -/
def faultIn (fault? : ε → Option Fault) : EStateM.Result ε τ β → Option Fault
  | .ok _ _ => none
  | .error e _ => fault? e

theorem Request.refusals_of_overflow? {r : Request} {blockSize : Nat} {fault : Fault}
    (h : r.overflow? blockSize = some fault) (size : Nat) : fault.refusals size = [] := by
  unfold overflow? at h
  grind [Fault.refusals, Fault.chunkBytes, Fault.chunkExtent]

namespace Store

/-- These events were recorded from one state of the store to the other. They name the chunks that
joined the chain, and the slab that was refused if this is why there is a fault. -/
structure Tells (s : Store σ) (events : List Event) (fault? : Option Fault) (s' : Store σ) :
    Prop where
  log_eq : s'.log.toList = s.log.toList ++ events
  chunks_eq : s'.arena.chunks.toList.map Chunk.bytes =
    s.arena.chunks.toList.map Chunk.bytes ++ events.filterMap Event.installed?
  blockSize_eq : s'.arena.blockSize = s.arena.blockSize
  refusals_eq : events.filter Event.isRefusal =
    fault?.elim [] (Fault.refusals s.arena.blockSize)
  not_rewound : events.filter Event.isRewinding = []

theorem Tells.quiet (s : Store σ) {fault? : Option Fault}
    (hfault : fault?.elim [] (Fault.refusals s.arena.blockSize) = []) : s.Tells [] fault? s where
  log_eq := (List.append_nil _).symm
  chunks_eq := (List.append_nil _).symm
  blockSize_eq := rfl
  refusals_eq := hfault.symm
  not_rewound := rfl

theorem Tells.trans {s s' s'' : Store σ} {events events' : List Event} {fault? : Option Fault}
    (h : s.Tells events none s') (h' : s'.Tells events' fault? s'') :
    s.Tells (events ++ events') fault? s'' where
  log_eq := by rw [h'.log_eq, h.log_eq, List.append_assoc]
  chunks_eq := by rw [h'.chunks_eq, h.chunks_eq, List.filterMap_append, List.append_assoc]
  blockSize_eq := h'.blockSize_eq.trans h.blockSize_eq
  refusals_eq := by
    rw [List.filter_append, h.refusals_eq, h'.refusals_eq, h.blockSize_eq]
    rfl
  not_rewound := by
    rw [List.filter_append, h.not_rewound, h'.not_rewound]
    rfl

theorem Tells.appended (s : Store σ) {e : Event} (he : e.isAppending = true) :
    s.Tells [e] none (s.record e) := by
  cases e with
  | typedNodeAppended | packedNodeAppended =>
      exact ⟨Array.toList_push, (List.append_nil _).symm, rfl, rfl, rfl⟩
  | _ => cases he

/-- What was recorded from one state to the other tells of no node. -/
def TellsOfChunks (s : Store σ) (fault? : Option Fault) (s' : Store σ) : Prop :=
  ∃ events, s.Tells events fault? s' ∧ events.filter Event.isAppending = []

theorem TellsOfChunks.quiet (s : Store σ) {fault? : Option Fault}
    (hfault : fault?.elim [] (Fault.refusals s.arena.blockSize) = []) :
    s.TellsOfChunks fault? s :=
  ⟨[], .quiet s hfault, rfl⟩

theorem TellsOfChunks.trans {s s' s'' : Store σ} {fault? : Option Fault}
    (h : s.TellsOfChunks none s') (h' : s'.TellsOfChunks fault? s'') :
    s.TellsOfChunks fault? s'' := by
  obtain ⟨events, htells, hnone⟩ := h
  obtain ⟨events', htells', hnone'⟩ := h'
  refine ⟨events ++ events', htells.trans htells', ?_⟩
  rw [List.filter_append, hnone, hnone']
  rfl

variable [SlabSource σ]

theorem tellsOfChunks_allocate (r : Request) (s : Store σ) :
    s.TellsOfChunks (faultIn some (allocate r s)) (finalState (allocate r s)) := by
  have h := allocation_allocate r s
  generalize allocate r s = result at h ⊢
  have htaken : ∀ {s : Store σ} {p : Placement}, s.arena.place? r = some p →
      (s.arena.take p r).chunks.toList.map Chunk.bytes =
        s.arena.chunks.toList.map Chunk.bytes := by
    intro s p hplace
    have hslabs := congrArg (List.map Slab.bytes) (slab_take hplace)
    rwa [List.map_map, List.map_map] at hslabs
  cases h with
  | unaligned => exact .quiet s rfl
  | excessive _ _ hoverflow => exact .quiet s (Request.refusals_of_overflow? hoverflow _)
  | served _ hplace =>
      refine ⟨[], ⟨(List.append_nil _).symm, ?_, rfl, rfl, rfl⟩, rfl⟩
      exact (htaken hplace).trans (List.append_nil _).symm
  | refused =>
      refine ⟨[.chunkRefused r.bytes (r.chunk s.arena.blockSize 0).bytes],
        ⟨Array.toList_push, (List.append_nil _).symm, rfl, rfl, rfl⟩, rfl⟩
  | @extended start source p _ _ _ _ hplace =>
      refine ⟨[.chunkInstalled (r.chunk s.arena.blockSize start).bytes],
        ⟨Array.toList_push, ?_, rfl, rfl, rfl⟩, rfl⟩
      have hextended := htaken (s := { s with arena := s.arena.extended _ }) hplace
      refine hextended.trans ?_
      rw [Arena.toList_chunks_extended, List.map_append]
      rfl

theorem tellsOfChunks_allocateAll (rs : List Request) (s : Store σ) :
    s.TellsOfChunks (faultIn some (allocateAll rs s)) (finalState (allocateAll rs s)) := by
  induction rs generalizing s with
  | nil => exact .quiet s rfl
  | cons r rs ih =>
      have htells := tellsOfChunks_allocate r s
      rw [allocateAll_cons]
      cases hfirst : allocate r s with
      | error fault s' =>
          rw [hfirst] at htells
          exact htells
      | ok address s' =>
          rw [hfirst] at htells
          exact htells.trans (ih s')

end Store

/-- Of what a computation on an array tells, what is about nodes names those that joined the chain,
in their order. -/
def TellsOfNodes [Segment ν α] (chain : β → Chain ν) (node : Nat → Event)
    (fault? : ε → Option Fault) (state : Store σ × β) (result : EStateM.Result ε (Store σ × β) γ) :
    Prop :=
  ∃ events capacities, state.1.Tells events (faultIn fault? result) (finalState result).1 ∧
    events.filter Event.isAppending = capacities.map node ∧
      (chain (finalState result).2).capacities = (chain state.2).capacities ++ capacities

section

variable [Segment ν α] {chain : β → Chain ν} {node : Nat → Event} {fault? : ε → Option Fault}

theorem TellsOfNodes.trans {ε' : Type} {fault?' : ε' → Option Fault} {state state' : Store σ × β}
    {c : γ} {result : EStateM.Result ε' (Store σ × β) δ}
    (h : TellsOfNodes chain node fault? state (.ok c state'))
    (h' : TellsOfNodes chain node fault?' state' result) :
    TellsOfNodes chain node fault?' state result := by
  obtain ⟨events, capacities, htells, hnodes, hcapacities⟩ := h
  obtain ⟨events', capacities', htells', hnodes', hcapacities'⟩ := h'
  refine ⟨events ++ events', capacities ++ capacities', htells.trans htells', ?_, ?_⟩
  · rw [List.filter_append, hnodes, hnodes', List.map_append]
  · rw [hcapacities', ← List.append_assoc]
    exact congrArg (· ++ capacities') hcapacities

/-- What pushing values in turn tells, if every push tells of the nodes that it appends. -/
theorem tellsOfNodes_pushEach [SlabSource σ] {push : δ → ResidentM σ β Unit}
    (hpush : ∀ v state, TellsOfNodes chain node some state (push v state)) (values : List δ)
    (state : Store σ × β) :
    TellsOfNodes chain node (fun refusal => some refusal.fault) state
      (pushEach push values state) := by
  induction values generalizing state with
  | nil => exact ⟨[], [], .quiet _ rfl, rfl, (List.append_nil _).symm⟩
  | cons v vs ih =>
      have hfirst := hpush v state
      rw [pushEach]
      cases h : push v state with
      | ok u state' =>
          rw [h] at hfirst
          exact hfirst.trans (ih state')
      | error fault state' =>
          rw [h] at hfirst
          exact hfirst

end

variable [SlabSource σ]

namespace TypedArray

theorem tellsOfChunks_allocateNode (f : Footprint) (capacity : Nat) (s : Store σ) :
    s.TellsOfChunks (faultIn some (allocateNode f capacity s))
      (finalState (allocateNode f capacity s)) := by
  unfold allocateNode
  split
  · exact .quiet s rfl
  · exact Store.tellsOfChunks_allocateAll _ s

theorem tellsOfChunks_create (f : Footprint) (g : Growth) (s : Store σ) :
    s.TellsOfChunks (faultIn some (create (α := α) f g s))
      (finalState (create (α := α) f g s)) := by
  have hnode := tellsOfChunks_allocateNode f g.initial s
  simp only [create]
  cases hsettings : g.validate with
  | error fault =>
      obtain ⟨reason, rfl⟩ := Growth.exists_of_validate_error hsettings
      exact .quiet s rfl
  | ok u =>
      dsimp only
      cases h : allocateNode f g.initial s <;> rwa [h] at hnode

theorem tellsOfNodes_grow (state : Store σ × TypedArray α) :
    TellsOfNodes chain .typedNodeAppended some state (grow state) := by
  obtain ⟨s, a⟩ := state
  have hpinned : a.pinTail.chain.capacities = a.chain.capacities :=
    Chain.capacities_modify a.chain _ fun _ => rfl
  obtain ⟨events, htells, hnone⟩ :=
    tellsOfChunks_allocateNode a.footprint (a.growth.next a.chain.tail.capacity) s
  simp only [grow]
  cases h : allocateNode a.footprint (a.growth.next a.chain.tail.capacity) s with
  | ok u s' =>
      rw [h] at htells
      refine ⟨_, [a.growth.next a.chain.tail.capacity], htells.trans (.appended s' rfl), ?_, ?_⟩
      · rw [List.filter_append, hnone]
        rfl
      · exact (Chain.capacities_append ..).trans (congrArg (· ++ _) hpinned)
  | error fault s' =>
      rw [h] at htells
      exact ⟨events, [], htells, hnone, hpinned.trans (List.append_nil _).symm⟩

theorem tellsOfNodes_claim (state : Store σ × TypedArray α) :
    TellsOfNodes chain .typedNodeAppended some state (claim state) := by
  have hclaimed : ∀ state : Store σ × TypedArray α,
      state.2.claimTail.chain.capacities = state.2.chain.capacities :=
    fun state => Chain.capacities_modify state.2.chain _ fun _ => rfl
  fun_induction claim state with
  | case1 state claimed hroom =>
      exact ⟨[], [], .quiet _ rfl, rfl, (hclaimed state).trans (List.append_nil _).symm⟩
  | case2 state claimed hroom state' hgrow ih =>
      have hfirst := tellsOfNodes_grow claimed
      rw [hgrow] at hfirst
      obtain ⟨events, capacities, htells, hnodes, hcapacities⟩ := hfirst.trans ih
      exact ⟨events, capacities, htells, hnodes, hclaimed state ▸ hcapacities⟩
  | case3 state claimed hroom fault state' hgrow =>
      have hfirst := tellsOfNodes_grow claimed
      rw [hgrow] at hfirst
      obtain ⟨events, capacities, htells, hnodes, hcapacities⟩ := hfirst
      exact ⟨events, capacities, htells, hnodes, hclaimed state ▸ hcapacities⟩

theorem tellsOfNodes_push (value : α) (state : Store σ × TypedArray α) :
    TellsOfNodes chain .typedNodeAppended some state (push value state) := by
  have hclaim := tellsOfNodes_claim state
  simp only [push]
  cases h : claim state with
  | error fault state' =>
      rw [h] at hclaim
      exact hclaim
  | ok t state' =>
      rw [h] at hclaim
      obtain ⟨events, capacities, htells, hnodes, hcapacities⟩ := hclaim
      have hcompleted : (state'.2.complete t value).chain.capacities = state'.2.chain.capacities :=
        Chain.capacities_modify state'.2.chain _ fun _ => rfl
      exact ⟨events, capacities, htells, hnodes, hcompleted.trans hcapacities⟩

end TypedArray

namespace PackedArray

theorem tellsOfChunks_create (g : Growth) (s : Store σ) :
    s.TellsOfChunks (faultIn some (create g s)) (finalState (create g s)) := by
  have hnode := Store.tellsOfChunks_allocateAll (nodeParts (roomy g.initial)) s
  simp only [create]
  cases hsettings : g.validate with
  | error fault =>
      obtain ⟨reason, rfl⟩ := Growth.exists_of_validate_error hsettings
      exact .quiet s rfl
  | ok u =>
      dsimp only [allocateNode]
      cases h : Store.allocateAll (nodeParts (roomy g.initial)) s <;> rwa [h] at hnode

theorem tellsOfNodes_grow (state : Store σ × PackedArray) :
    TellsOfNodes chain .packedNodeAppended some state (grow state) := by
  obtain ⟨s, a⟩ := state
  obtain ⟨events, htells, hnone⟩ :=
    Store.tellsOfChunks_allocateAll (nodeParts (roomy (a.growth.next a.chain.tail.capacity))) s
  simp only [grow, allocateNode]
  cases h : Store.allocateAll (nodeParts (roomy (a.growth.next a.chain.tail.capacity))) s with
  | ok u s' =>
      rw [h] at htells
      refine ⟨_, [roomy (a.growth.next a.chain.tail.capacity)], htells.trans (.appended s' rfl), ?_,
        Chain.capacities_append ..⟩
      rw [List.filter_append, hnone]
      rfl
  | error fault s' =>
      rw [h] at htells
      exact ⟨events, [], htells, hnone, (List.append_nil _).symm⟩

theorem tellsOfNodes_reserve (width : Nat) (state : Store σ × PackedArray) :
    TellsOfNodes chain .packedNodeAppended some state (reserve width state) := by
  fun_induction reserve width state with
  | case1 state hroom =>
      have htaken : (state.2.takeBytes width).chain.capacities = state.2.chain.capacities :=
        Chain.capacities_modify state.2.chain _ fun _ => rfl
      exact ⟨[], [], .quiet _ rfl, rfl, htaken.trans (List.append_nil _).symm⟩
  | case2 state hroom state' hgrow ih =>
      have hfirst := tellsOfNodes_grow state
      rw [hgrow] at hfirst
      exact hfirst.trans ih
  | case3 state hroom fault state' hgrow =>
      have hfirst := tellsOfNodes_grow state
      rwa [hgrow] at hfirst

omit [SlabSource σ] in
theorem capacities_storeFrom (a : PackedArray) (spot : Spot) (i : Nat) (bytes : List UInt8) :
    (a.storeFrom spot i bytes).chain.capacities = a.chain.capacities := by
  induction bytes generalizing a i with
  | nil => rfl
  | cons byte bytes ih =>
      rw [storeFrom, ih]
      exact Chain.capacities_modify a.chain _ fun _ => rfl

theorem tellsOfNodes_push (word : UInt32) (state : Store σ × PackedArray) :
    TellsOfNodes chain .packedNodeAppended some state (push word state) := by
  have hreserve := tellsOfNodes_reserve (Leb128.encode word).length state
  simp only [push]
  cases h : reserve (Leb128.encode word).length state with
  | error fault state' =>
      rw [h] at hreserve
      exact hreserve
  | ok spot state' =>
      rw [h] at hreserve
      obtain ⟨events, capacities, htells, hnodes, hcapacities⟩ := hreserve
      refine ⟨events, capacities, htells, hnodes, ?_⟩
      refine Eq.trans (Chain.capacities_modify _ _ fun _ => rfl) ?_
      exact (capacities_storeFrom ..).trans hcapacities

end PackedArray

end GrowArena
