import GrowArena.Packed.Basic
import GrowArena.Proofs.Arena.Shift
import GrowArena.Proofs.Packed.Contents
import GrowArena.Proofs.Typed.Contents

/-!
The same array beside two stores that are the same but for their addresses. An array asks for memory
and never looks at where it lies, so the arrays remain the same, whatever is pushed.
-/

namespace GrowArena

variable {d : Int} {α β : Type}

/-- The same value, which fits the distance, beside stores that are shifted by it. -/
inductive Beside (d : Int) (Fits : β → Prop) : Store LinearHeap × β → Store LinearHeap × β → Prop
  | mk {s s' : Store LinearHeap} {b : β} (hs : s.Shifted d s') (hb : Fits b) :
      Beside d Fits (s, b) (s', b)

theorem Beside.eq {Fits : β → Prop} {state state' : Store LinearHeap × β}
    (h : Beside d Fits state state') : state'.2 = state.2 := by
  cases h
  rfl

theorem nodeRecord_dvd {s s' : Store LinearHeap} (h : s.Shifted d s') :
    (nodeRecord.alignment : Int) ∣ d :=
  Int.dvd_trans (by decide) h.source.grain_dvd

namespace TypedArray

variable {state state' : Store LinearHeap × TypedArray α}

/-- The distance is a multiple of the alignment of the elements. -/
def Fits (d : Int) (a : TypedArray α) : Prop := (a.footprint.alignment : Int) ∣ d

theorem tandem_allocateNode {s s' : Store LinearHeap} (h : s.Shifted d s') {f : Footprint}
    (hf : (f.alignment : Int) ∣ d) (capacity : Nat) :
    Tandem (Store.Shifted d) Eq (allocateNode f capacity s) (allocateNode f capacity s') := by
  unfold allocateNode
  split
  · exact .error h
  · refine h.allocateAll ?_
    simpa [nodeParts] using ⟨hf, nodeRecord_dvd h⟩

theorem tandem_create {s s' : Store LinearHeap} (h : s.Shifted d s') {f : Footprint}
    (hf : (f.alignment : Int) ∣ d) (g : Growth) :
    Tandem (Store.Shifted d) (fun a a' => a' = a ∧ a.Fits d)
      (create (α := α) f g s) (create f g s') := by
  simp only [create]
  cases g.validate with
  | error fault => exact .error h
  | ok u =>
      have hnode := tandem_allocateNode h hf g.initial
      dsimp only
      generalize allocateNode f g.initial s = r, allocateNode f g.initial s' = r' at hnode
      cases hnode with
      | ok _ hs => exact .ok ⟨rfl, hf⟩ hs
      | error hs => exact .error hs

theorem tandem_grow (h : Beside d (Fits d) state state') :
    Tandem (Beside d (Fits d)) Eq (grow state) (grow state') := by
  obtain @⟨s, s', a, hs, ha⟩ := h
  have hnode := tandem_allocateNode hs ha (a.growth.next a.chain.tail.capacity)
  simp only [grow]
  generalize allocateNode a.footprint _ s = r, allocateNode a.footprint _ s' = r' at hnode
  cases hnode with
  | ok _ hs => exact .ok rfl ⟨hs.record _, ha⟩
  | error hs => exact .error ⟨hs, ha⟩

theorem tandem_claim_of_room (h : Beside d (Fits d) state state')
    (hroom : state.2.chain.tail.HasRoom) :
    Tandem (Beside d (Fits d)) Eq (claim state) (claim state') := by
  obtain ⟨hs, ha⟩ := h
  rw [claim_of_room hroom, claim_of_room hroom]
  exact .ok rfl ⟨hs, ha⟩

theorem tandem_claim (h : Beside d (Fits d) state state') :
    Tandem (Beside d (Fits d)) Eq (claim state) (claim state') := by
  by_cases hroom : state.2.chain.tail.HasRoom
  · exact tandem_claim_of_room h hroom
  obtain @⟨s, s', a, hs, ha⟩ := h
  have hclaimed : Beside d (Fits d) (s, a.claimTail) (s', a.claimTail) := ⟨hs, ha⟩
  have hgrown := tandem_grow hclaimed
  rw [claim_of_full hroom, claim_of_full hroom]
  generalize hfirst : grow (s, a.claimTail) = r, grow (s', a.claimTail) = r' at hgrown
  cases hgrown with
  | ok _ hstate => exact tandem_claim_of_room hstate (hasRoom_of_grow hfirst)
  | error hstate => exact .error hstate

theorem tandem_push (value : α) (h : Beside d (Fits d) state state') :
    Tandem (Beside d (Fits d)) Eq (push value state) (push value state') := by
  have hclaimed := tandem_claim h
  simp only [push]
  generalize claim state = r, claim state' = r' at hclaimed
  cases hclaimed with
  | error hstate => exact .error hstate
  | ok ht hstate =>
      obtain ⟨hs, ha⟩ := hstate
      rw [ht]
      exact .ok rfl ⟨hs, ha⟩

end TypedArray

namespace PackedArray

variable {state state' : Store LinearHeap × PackedArray}

theorem tandem_allocateNode {s s' : Store LinearHeap} (h : s.Shifted d s') (capacity : Nat) :
    Tandem (Store.Shifted d) Eq (allocateNode capacity s) (allocateNode capacity s') := by
  refine h.allocateAll ?_
  simpa [nodeParts] using nodeRecord_dvd h

theorem tandem_create {s s' : Store LinearHeap} (h : s.Shifted d s') (g : Growth) :
    Tandem (Store.Shifted d) Eq (create g s) (create g s') := by
  simp only [create]
  cases g.validate with
  | error fault => exact .error h
  | ok u =>
      have hnode := tandem_allocateNode h (roomy g.initial)
      dsimp only
      generalize allocateNode (roomy g.initial) s = r, allocateNode (roomy g.initial) s' = r'
        at hnode
      cases hnode with
      | ok _ hs => exact .ok rfl hs
      | error hs => exact .error hs

/-- Any distance fits a packed array. -/
abbrev Fits (_ : PackedArray) : Prop := True

theorem tandem_grow (h : Beside d Fits state state') :
    Tandem (Beside d Fits) Eq (grow state) (grow state') := by
  obtain @⟨s, s', a, hs, ha⟩ := h
  have hnode := tandem_allocateNode hs (roomy (a.growth.next a.chain.tail.capacity))
  simp only [grow]
  generalize allocateNode _ s = r, allocateNode _ s' = r' at hnode
  cases hnode with
  | ok _ hs => exact .ok rfl ⟨hs.record _, trivial⟩
  | error hs => exact .error ⟨hs, ha⟩

theorem tandem_reserve_of_room (h : Beside d Fits state state')
    (hroom : state.2.chain.tail.HasRoom) (width : Nat) :
    Tandem (Beside d Fits) Eq (reserve width state) (reserve width state') := by
  obtain ⟨hs, -⟩ := h
  rw [reserve_of_room hroom, reserve_of_room hroom]
  exact .ok rfl ⟨hs, trivial⟩

theorem tandem_reserve (width : Nat) (h : Beside d Fits state state') :
    Tandem (Beside d Fits) Eq (reserve width state) (reserve width state') := by
  by_cases hroom : state.2.chain.tail.HasRoom
  · exact tandem_reserve_of_room h hroom width
  have hgrown := tandem_grow h
  obtain @⟨s, s', a, hs, -⟩ := h
  rw [reserve_of_full hroom, reserve_of_full hroom]
  generalize hfirst : grow (s, a) = r, grow (s', a) = r' at hgrown
  cases hgrown with
  | ok _ hstate => exact tandem_reserve_of_room hstate (hasRoom_of_grow hfirst) width
  | error hstate => exact .error hstate

theorem tandem_push (word : UInt32) (h : Beside d Fits state state') :
    Tandem (Beside d Fits) Eq (push word state) (push word state') := by
  have hreserved := tandem_reserve (Leb128.encode word).length h
  simp only [push]
  generalize reserve _ state = r, reserve _ state' = r' at hreserved
  cases hreserved with
  | error hstate => exact .error hstate
  | ok hspot hstate =>
      obtain ⟨hs, -⟩ := hstate
      rw [hspot]
      exact .ok rfl ⟨hs, trivial⟩

end PackedArray

end GrowArena
