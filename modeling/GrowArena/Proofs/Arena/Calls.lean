import GrowArena.Packed.Basic
import GrowArena.Proofs.Arena.Allocation
import GrowArena.Proofs.Arena.Pushing
import GrowArena.Typed.Basic

/-!
Everything that arrays and commands do to an arena between two rewinds they do by allocations, one
after the other. `Store.Calls` lists the ranges that the successful ones returned, and for each
operation a function tells which ranges these are; the grants of the arena are that list, and what
every allocation keeps true stays true.
-/

namespace GrowArena

variable {σ α : Type} [SlabSource σ]

namespace Store

/-- Allocations lead from one store to the other, and returned these ranges, oldest first. Events
may be recorded at any time. -/
inductive Calls (s : Store σ) : List Grant → Store σ → Prop
  | none : Calls s [] s
  | logged {ranges : List Grant} {s' : Store σ} (h : Calls s ranges s') (log : Array Event) :
      Calls s ranges { s' with log }
  | served {ranges : List Grant} {s' s'' : Store σ} {r : Request} {address : Nat}
      (h : Calls s ranges s') (hallocate : allocate r s' = .ok address s'') :
      Calls s (ranges ++ [⟨address, r⟩]) s''
  | failed {ranges : List Grant} {s' s'' : Store σ} {r : Request} {fault : Fault}
      (h : Calls s ranges s') (hallocate : allocate r s' = .error fault s'') :
      Calls s ranges s''

/-- Some allocations lead from one store to the other. -/
def Leads (s s' : Store σ) : Prop := ∃ ranges, Calls s ranges s'

theorem Calls.trans {s s' s'' : Store σ} {ranges ranges' : List Grant} (h : Calls s ranges s')
    (h' : Calls s' ranges' s'') : Calls s (ranges ++ ranges') s'' := by
  induction h' with
  | none => rwa [List.append_nil]
  | logged _ log ih => exact .logged ih log
  | served _ hallocate ih =>
      rw [← List.append_assoc]
      exact .served ih hallocate
  | failed _ hallocate ih => exact .failed ih hallocate

theorem Calls.leads {s s' : Store σ} {ranges : List Grant} (h : Calls s ranges s') : Leads s s' :=
  ⟨ranges, h⟩

theorem Leads.refl (s : Store σ) : Leads s s := ⟨[], .none⟩

theorem Leads.trans {s s' s'' : Store σ} (h : Leads s s') (h' : Leads s' s'') : Leads s s'' := by
  obtain ⟨ranges, hcalls⟩ := h
  obtain ⟨ranges', hcalls'⟩ := h'
  exact ⟨ranges ++ ranges', hcalls.trans hcalls'⟩

theorem Leads.logged {s s' : Store σ} (h : Leads s s') (log : Array Event) :
    Leads s { s' with log } := by
  obtain ⟨ranges, hcalls⟩ := h
  exact ⟨ranges, hcalls.logged log⟩

/-- What every allocation keeps true, whatever is recorded, is kept true by all of them. -/
theorem Leads.induct {P : Store σ → Prop} (hlog : ∀ s log, P s → P { s with log })
    (hallocate : ∀ r s, P s → P (finalState (allocate r s))) {s s' : Store σ} (h : Leads s s')
    (hs : P s) : P s' := by
  obtain ⟨ranges, hcalls⟩ := h
  induction hcalls with
  | none => exact hs
  | logged _ log ih => exact hlog _ log ih
  | @served _ s' _ r _ _ heq ih =>
      have := hallocate r s' ih
      rwa [heq] at this
  | @failed _ s' _ r _ _ heq ih =>
      have := hallocate r s' ih
      rwa [heq] at this

/-- Only a successful allocation adds to the grants: the range that it returns. -/
theorem grants_allocate (r : Request) (s : Store σ) :
    (finalState (allocate r s)).arena.grants = match allocate r s with
      | .ok address _ => ⟨address, r⟩ :: s.arena.grants
      | .error _ _ => s.arena.grants := by
  have h := allocation_allocate r s
  generalize allocate r s = result at h ⊢
  cases h <;> rfl

theorem Calls.grants_eq {s s' : Store σ} {ranges : List Grant} (h : Calls s ranges s') :
    s'.arena.grants = ranges.reverse ++ s.arena.grants := by
  induction h with
  | none => rfl
  | logged _ _ ih => exact ih
  | @served _ s' _ r _ _ heq ih =>
      have hgrants := grants_allocate r s'
      rw [heq] at hgrants
      rw [List.reverse_append]
      exact hgrants.trans (congrArg _ ih)
  | @failed _ s' _ r _ _ heq ih =>
      have hgrants := grants_allocate r s'
      rw [heq] at hgrants
      exact hgrants.trans ih

theorem blockSize_allocate (r : Request) (s : Store σ) :
    (finalState (allocate r s)).arena.blockSize = s.arena.blockSize := by
  have h := allocation_allocate r s
  generalize allocate r s = result at h ⊢
  cases h <;> rfl

theorem Calls.blockSize_eq {s s' : Store σ} {ranges : List Grant} (h : Calls s ranges s') :
    s'.arena.blockSize = s.arena.blockSize := by
  refine h.leads.induct (P := fun s' => s'.arena.blockSize = s.arena.blockSize)
    (fun _ _ hs => hs) (fun r s' hs => ?_) rfl
  rw [blockSize_allocate, hs]

/-- These ranges are what allocations have returned since the arena was last empty, oldest
first. -/
def Traced (s : Store σ) (ranges : List Grant) : Prop :=
  ∃ s₀ : Store σ, s₀.arena = s.arena.emptied ∧ Calls s₀ ranges s

theorem traced_rewind (s : Store σ) : s.rewind.Traced [] := ⟨s.rewind, rfl, .none⟩

theorem Traced.calls {s s' : Store σ} {ranges ranges' : List Grant} (h : s.Traced ranges)
    (h' : Calls s ranges' s') : s'.Traced (ranges ++ ranges') := by
  obtain ⟨s₀, hempty, hcalls⟩ := h
  refine ⟨s₀, ?_, hcalls.trans h'⟩
  rw [hempty, Arena.emptied, Arena.emptied, h'.blockSize_eq]

theorem Traced.grants_eq {s : Store σ} {ranges : List Grant} (h : s.Traced ranges) :
    s.arena.grants = ranges.reverse := by
  obtain ⟨s₀, hempty, hcalls⟩ := h
  rw [hcalls.grants_eq, hempty]
  exact List.append_nil _

/-- The ranges that are returned for requests in turn, up to the first one that fails. -/
def rangesFor : List Request → Store σ → List Grant
  | [], _ => []
  | r :: rs, s =>
      match allocate r s with
      | .ok address s' => ⟨address, r⟩ :: rangesFor rs s'
      | .error _ _ => []

theorem calls_allocateAll (rs : List Request) (s : Store σ) :
    Calls s (rangesFor rs s) (finalState (allocateAll rs s)) := by
  induction rs generalizing s with
  | nil => exact .none
  | cons r rs ih =>
      simp only [allocateAll, bind, EStateM.bind, rangesFor]
      cases h : allocate r s with
      | ok address s' => exact (Calls.none.served h).trans (ih s')
      | error fault s' => exact .failed .none h

end Store

namespace TypedArray

/-- The ranges of the parts of a node that are returned when the node is asked for. -/
def nodeRanges (f : Footprint) (capacity : Nat) (s : Store σ) : List Grant :=
  if wordMax < capacity * f.size then [] else Store.rangesFor (nodeParts f capacity) s

/-- The ranges that are returned when an array is made. -/
def createRanges (f : Footprint) (g : Growth) (s : Store σ) : List Grant :=
  match g.validate with
  | .error _ => []
  | .ok () => nodeRanges f g.initial s

/-- The ranges that are returned when a value is pushed: those of a node, if the tail is full. -/
def pushRanges : Store σ × TypedArray α → List Grant
  | (s, a) =>
      if a.chain.tail.HasRoom then []
      else nodeRanges a.footprint (a.growth.next a.chain.tail.capacity) s

theorem calls_allocateNode (f : Footprint) (capacity : Nat) (s : Store σ) :
    s.Calls (nodeRanges f capacity s) (finalState (allocateNode f capacity s)) := by
  unfold allocateNode nodeRanges
  split
  · exact .none
  · exact Store.calls_allocateAll _ s

theorem calls_create (f : Footprint) (g : Growth) (s : Store σ) :
    s.Calls (createRanges f g s) (finalState (create (α := α) f g s)) := by
  have hnode := calls_allocateNode f g.initial s
  simp only [create, createRanges]
  cases g.validate with
  | error fault => exact .none
  | ok u =>
      dsimp only
      cases h : allocateNode f g.initial s <;> rwa [h] at hnode

theorem calls_grow (s : Store σ) (a : TypedArray α) :
    s.Calls (nodeRanges a.footprint (a.growth.next a.chain.tail.capacity) s)
      (finalState (grow (s, a))).1 := by
  have hnode := calls_allocateNode a.footprint (a.growth.next a.chain.tail.capacity) s
  simp only [grow]
  cases h : allocateNode a.footprint (a.growth.next a.chain.tail.capacity) s with
  | ok u s' =>
      rw [h] at hnode
      exact hnode.logged _
  | error fault s' => rwa [h] at hnode

omit [SlabSource σ] in
theorem capacity_tail_claimTail (a : TypedArray α) :
    a.claimTail.chain.tail.capacity = a.chain.tail.capacity := by
  rw [claimTail, Chain.tail_modify_last, TypedNode.claim]

theorem calls_claim (state : Store σ × TypedArray α) :
    state.1.Calls (pushRanges state) (finalState (claim state)).1 := by
  fun_induction claim state with
  | case1 state claimed hroom =>
      rw [pushRanges, if_pos hroom]
      exact .none
  | case2 state claimed hroom state' hgrow ih =>
      have hfirst := calls_grow state.1 state.2.claimTail
      rw [hgrow, capacity_tail_claimTail] at hfirst
      rw [pushRanges, if_pos (hasRoom_of_grow hgrow)] at ih
      rw [pushRanges, if_neg hroom, ← List.append_nil (nodeRanges ..)]
      exact hfirst.trans ih
  | case3 state claimed hroom fault state' hgrow =>
      have hfirst := calls_grow state.1 state.2.claimTail
      rw [hgrow, capacity_tail_claimTail] at hfirst
      rw [pushRanges, if_neg hroom]
      exact hfirst

theorem calls_push (value : α) (state : Store σ × TypedArray α) :
    state.1.Calls (pushRanges state) (finalState (push value state)).1 := by
  have hclaim := calls_claim state
  simp only [push]
  cases h : claim state <;> rwa [h] at hclaim

end TypedArray

namespace PackedArray

/-- The ranges that are returned when an array is made. -/
def createRanges (g : Growth) (s : Store σ) : List Grant :=
  match g.validate with
  | .error _ => []
  | .ok () => Store.rangesFor (nodeParts (roomy g.initial)) s

/-- The ranges that are returned when a word is pushed: those of a node, if the tail has no room
for a code. -/
def pushRanges : Store σ × PackedArray → List Grant
  | (s, a) =>
      if a.chain.tail.HasRoom then []
      else Store.rangesFor (nodeParts (roomy (a.growth.next a.chain.tail.capacity))) s

theorem calls_create (g : Growth) (s : Store σ) :
    s.Calls (createRanges g s) (finalState (create g s)) := by
  have hnode := Store.calls_allocateAll (nodeParts (roomy g.initial)) s
  simp only [create, createRanges]
  cases g.validate with
  | error fault => exact .none
  | ok u =>
      dsimp only [allocateNode]
      cases h : Store.allocateAll (nodeParts (roomy g.initial)) s <;> rwa [h] at hnode

theorem calls_grow (s : Store σ) (a : PackedArray) :
    s.Calls (Store.rangesFor (nodeParts (roomy (a.growth.next a.chain.tail.capacity))) s)
      (finalState (grow (s, a))).1 := by
  have hnode := Store.calls_allocateAll
    (nodeParts (roomy (a.growth.next a.chain.tail.capacity))) s
  simp only [grow, allocateNode]
  cases h : Store.allocateAll (nodeParts (roomy (a.growth.next a.chain.tail.capacity))) s with
  | ok u s' =>
      rw [h] at hnode
      exact hnode.logged _
  | error fault s' => rwa [h] at hnode

theorem calls_reserve (width : Nat) (state : Store σ × PackedArray) :
    state.1.Calls (pushRanges state) (finalState (reserve width state)).1 := by
  fun_induction reserve width state with
  | case1 state hroom =>
      rw [pushRanges, if_pos hroom]
      exact .none
  | case2 state hroom state' hgrow ih =>
      have hfirst := calls_grow state.1 state.2
      rw [hgrow] at hfirst
      rw [pushRanges, if_pos (hasRoom_of_grow hgrow)] at ih
      rw [pushRanges, if_neg hroom, ← List.append_nil (Store.rangesFor ..)]
      exact hfirst.trans ih
  | case3 state hroom fault state' hgrow =>
      have hfirst := calls_grow state.1 state.2
      rw [hgrow] at hfirst
      rwa [pushRanges, if_neg hroom]

theorem calls_push (word : UInt32) (state : Store σ × PackedArray) :
    state.1.Calls (pushRanges state) (finalState (push word state)).1 := by
  have hreserve := calls_reserve (Leb128.encode word).length state
  simp only [push]
  cases h : reserve (Leb128.encode word).length state <;> rwa [h] at hreserve

end PackedArray

/-- The ranges that are returned when values are pushed in turn, up to the first that is refused,
if those for one value are known. -/
def rangesOfEach {β : Type} (push : α → ResidentM σ β Unit)
    (ranges : Store σ × β → List Grant) : List α → Store σ × β → List Grant
  | [], _ => []
  | value :: values, state =>
      ranges state ++
        match push value state with
        | .ok () state' => rangesOfEach push ranges values state'
        | .error _ _ => []

theorem calls_pushEach {β : Type} {push : α → ResidentM σ β Unit}
    {ranges : Store σ × β → List Grant}
    (hpush : ∀ value (state : Store σ × β),
      state.1.Calls (ranges state) (finalState (push value state)).1)
    (values : List α) (state : Store σ × β) :
    state.1.Calls (rangesOfEach push ranges values state)
      (finalState (pushEach push values state)).1 := by
  induction values generalizing state with
  | nil => exact .none
  | cons value values ih =>
      have hfirst := hpush value state
      rw [rangesOfEach, pushEach]
      cases h : push value state with
      | ok u state' =>
          rw [h] at hfirst
          exact hfirst.trans (ih state')
      | error fault state' =>
          rw [h] at hfirst
          rw [List.append_nil]
          exact hfirst

end GrowArena
