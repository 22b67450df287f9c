import GrowArena.Proofs.Arena.Calls
import GrowArena.Proofs.Chain.Growth

/-!
The parts of nodes among the ranges that allocations return. A node comes to an array only when all
its parts were granted, so what was asked for for the nodes of an array is among what was granted
when it was made and when values were pushed onto it.
-/

namespace GrowArena

variable {σ α : Type} [SlabSource σ]

theorem Store.requests_rangesFor {rs : List Request} {s s' : Store σ} {u : Unit}
    (h : allocateAll rs s = .ok u s') : (rangesFor rs s).map Grant.request = rs := by
  induction rs generalizing s with
  | nil => rfl
  | cons r rs ih =>
      simp only [allocateAll, bind, EStateM.bind] at h
      rw [rangesFor]
      cases hfirst : allocate r s with
      | error fault s₁ => simp [hfirst] at h
      | ok address s₁ =>
          rw [hfirst] at h
          exact congrArg (r :: ·) (ih h)

namespace TypedArray

/-- What was asked for for the nodes of the array, node after node. -/
def parts (a : TypedArray α) : List Request :=
  a.chain.capacities.flatMap (nodeParts a.footprint)

omit [SlabSource σ] in
theorem parts_modify (a : TypedArray α) (i : Nat) {f : TypedNode α → TypedNode α}
    (hf : ∀ node, (f node).capacity = node.capacity) :
    parts { a with chain := a.chain.modify i f } = a.parts :=
  congrArg (List.flatMap (nodeParts a.footprint)) (Chain.capacities_modify a.chain i hf)

omit [SlabSource σ] in
theorem parts_claimTail (a : TypedArray α) : a.claimTail.parts = a.parts :=
  parts_modify a _ fun _ => rfl

omit [SlabSource σ] in
theorem parts_pinTail (a : TypedArray α) : a.pinTail.parts = a.parts :=
  parts_modify a _ fun _ => rfl

theorem requests_nodeRanges {f : Footprint} {capacity : Nat} {s s' : Store σ} {u : Unit}
    (h : allocateNode f capacity s = .ok u s') :
    (nodeRanges f capacity s).map Grant.request = nodeParts f capacity := by
  unfold allocateNode at h
  unfold nodeRanges
  split at h
  · cases h
  · rename_i hcounted
    rw [if_neg hcounted]
    exact Store.requests_rangesFor h

theorem parts_create {f : Footprint} {g : Growth} {s s' : Store σ} {a : TypedArray α}
    (h : create f g s = .ok a s') : a.parts = (createRanges f g s).map Grant.request := by
  simp only [create] at h
  rw [createRanges]
  cases hvalid : g.validate with
  | error fault => simp [hvalid] at h
  | ok u =>
      rw [hvalid] at h
      dsimp only at h ⊢
      split at h
      · rename_i hnode
        obtain ⟨rfl, -⟩ := EStateM.Result.ok.inj h
        exact (List.append_nil _).trans (requests_nodeRanges hnode).symm
      · cases h

theorem parts_grow {s s' : Store σ} {a a' : TypedArray α} {u : Unit}
    (h : grow (s, a) = .ok u (s', a')) :
    a'.parts = a.parts ++
      (nodeRanges a.footprint (a.growth.next a.chain.tail.capacity) s).map Grant.request := by
  simp only [grow] at h
  split at h
  · rename_i hnode
    obtain ⟨-, rfl⟩ := Prod.mk.inj (EStateM.Result.ok.inj h).2
    rw [requests_nodeRanges hnode, ← parts_pinTail a, parts, append, Chain.capacities_append,
      List.flatMap_append, List.flatMap_singleton]
    rfl
  · cases h

theorem parts_claim (state : Store σ × TypedArray α) :
    (finalState (claim state)).2.parts.Sublist
      (state.2.parts ++ (pushRanges state).map Grant.request) := by
  fun_induction claim state with
  | case1 state claimed hroom =>
      rw [pushRanges, if_pos hroom, List.map_nil, List.append_nil]
      exact parts_claimTail state.2 ▸ List.Sublist.refl _
  | case2 state claimed hroom state' hgrow ih =>
      have hgrown : state'.2.parts = _ := parts_grow (s := state.1) (a := state.2.claimTail) hgrow
      rw [capacity_tail_claimTail, parts_claimTail] at hgrown
      rw [pushRanges, if_pos (hasRoom_of_grow hgrow), List.map_nil, List.append_nil, hgrown] at ih
      rwa [pushRanges, if_neg hroom]
  | case3 state claimed hroom fault state' hgrow =>
      have hpinned : claimed.2.pinTail.parts = state.2.parts :=
        (parts_pinTail claimed.2).trans (parts_claimTail state.2)
      have hsame : state'.2.parts = state.2.parts := by
        simp only [grow] at hgrow
        split at hgrow
        · cases hgrow
        · rw [← (EStateM.Result.error.inj hgrow).2]
          exact hpinned
      exact hsame ▸ List.sublist_append_left _ _

theorem parts_push (value : α) (state : Store σ × TypedArray α) :
    (finalState (push value state)).2.parts.Sublist
      (state.2.parts ++ (pushRanges state).map Grant.request) := by
  have hclaim := parts_claim state
  simp only [push]
  cases h : claim state with
  | error fault state' => rwa [h] at hclaim
  | ok t state' =>
      rw [h] at hclaim
      have hcomplete : (state'.2.complete t value).parts = state'.2.parts :=
        parts_modify state'.2 _ fun _ => rfl
      exact hcomplete ▸ hclaim

end TypedArray

namespace PackedArray

/-- What was asked for for the nodes of the array, node after node. -/
def parts (a : PackedArray) : List Request := a.chain.capacities.flatMap nodeParts

theorem parts_modify (a : PackedArray) (i : Nat) {f : PackedNode → PackedNode}
    (hf : ∀ node, (f node).capacity = node.capacity) :
    parts { a with chain := a.chain.modify i f } = a.parts :=
  congrArg (List.flatMap nodeParts) (Chain.capacities_modify a.chain i hf)

theorem parts_create {g : Growth} {s s' : Store σ} {a : PackedArray}
    (h : create g s = .ok a s') : a.parts = (createRanges g s).map Grant.request := by
  simp only [create] at h
  rw [createRanges]
  cases hvalid : g.validate with
  | error fault => simp [hvalid] at h
  | ok u =>
      rw [hvalid] at h
      dsimp only [allocateNode] at h ⊢
      split at h
      · rename_i hnode
        obtain ⟨rfl, -⟩ := EStateM.Result.ok.inj h
        exact (List.append_nil _).trans (Store.requests_rangesFor hnode).symm
      · cases h

theorem parts_grow {s s' : Store σ} {a a' : PackedArray} {u : Unit}
    (h : grow (s, a) = .ok u (s', a')) :
    a'.parts = a.parts ++
      (Store.rangesFor (nodeParts (roomy (a.growth.next a.chain.tail.capacity))) s).map
        Grant.request := by
  simp only [grow, allocateNode] at h
  split at h
  · rename_i hnode
    obtain ⟨-, rfl⟩ := Prod.mk.inj (EStateM.Result.ok.inj h).2
    rw [Store.requests_rangesFor hnode, parts, append, Chain.capacities_append,
      List.flatMap_append, List.flatMap_singleton]
    rfl
  · cases h

theorem parts_reserve (width : Nat) (state : Store σ × PackedArray) :
    (finalState (reserve width state)).2.parts.Sublist
      (state.2.parts ++ (pushRanges state).map Grant.request) := by
  fun_induction reserve width state with
  | case1 state hroom =>
      have htaken : (state.2.takeBytes width).parts = state.2.parts :=
        parts_modify state.2 _ fun _ => rfl
      rw [pushRanges, if_pos hroom, List.map_nil, List.append_nil]
      exact htaken ▸ List.Sublist.refl _
  | case2 state hroom state' hgrow ih =>
      have hgrown : state'.2.parts = _ := parts_grow (s := state.1) (a := state.2) hgrow
      rw [pushRanges, if_pos (hasRoom_of_grow hgrow), List.map_nil, List.append_nil, hgrown] at ih
      rwa [pushRanges, if_neg hroom]
  | case3 state hroom fault state' hgrow =>
      have hsame : state'.2 = state.2 := by
        simp only [grow] at hgrow
        split at hgrow
        · cases hgrow
        · rw [← (EStateM.Result.error.inj hgrow).2]
      exact hsame ▸ List.sublist_append_left _ _

omit [SlabSource σ] in
theorem parts_storeFrom (a : PackedArray) (spot : Spot) (i : Nat) (bytes : List UInt8) :
    (a.storeFrom spot i bytes).parts = a.parts := by
  induction bytes generalizing a i with
  | nil => rfl
  | cons byte bytes ih =>
      rw [storeFrom, ih]
      exact parts_modify a _ fun _ => rfl

theorem parts_push (word : UInt32) (state : Store σ × PackedArray) :
    (finalState (push word state)).2.parts.Sublist
      (state.2.parts ++ (pushRanges state).map Grant.request) := by
  have hreserve := parts_reserve (Leb128.encode word).length state
  simp only [push]
  cases h : reserve (Leb128.encode word).length state with
  | error fault state' => rwa [h] at hreserve
  | ok spot state' =>
      rw [h] at hreserve
      have hfinish : ∀ a : PackedArray, (a.finish spot).parts = a.parts :=
        fun a => parts_modify a _ fun _ => rfl
      have hsame := (hfinish _).trans (parts_storeFrom state'.2 spot 0 (Leb128.encode word))
      exact hsame ▸ hreserve

end PackedArray

omit [SlabSource σ] in
theorem parts_pushEach {β : Type} {push : α → ResidentM σ β Unit}
    {ranges : Store σ × β → List Grant} {parts : β → List Request}
    (hpush : ∀ value (state : Store σ × β), (parts (finalState (push value state)).2).Sublist
      (parts state.2 ++ (ranges state).map Grant.request))
    (values : List α) (state : Store σ × β) :
    (parts (finalState (pushEach push values state)).2).Sublist
      (parts state.2 ++ (rangesOfEach push ranges values state).map Grant.request) := by
  induction values generalizing state with
  | nil => exact List.sublist_append_left _ _
  | cons value values ih =>
      have hfirst := hpush value state
      rw [rangesOfEach, pushEach]
      cases h : push value state with
      | error fault state' =>
          rw [h] at hfirst
          rwa [List.append_nil]
      | ok u state' =>
          rw [h] at hfirst
          rw [List.map_append, ← List.append_assoc]
          exact (ih state').trans (hfirst.append_right _)

end GrowArena
