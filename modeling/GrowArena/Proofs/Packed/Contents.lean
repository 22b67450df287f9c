import GrowArena.Packed.Basic
import GrowArena.Proofs.Arena.Pushing
import GrowArena.Proofs.Chain.Contents
import GrowArena.Proofs.Packed.Node
import Mathlib.Data.List.Induction

/-!
What a packed array holds while no reservation is pending, and what a push makes of it. As with
typed arrays, each node holds a list of words, a push adds its word to the last of these lists or
starts a new one, and a push that fails changes nothing.
-/

namespace GrowArena

variable {σ : Type}

namespace PackedArray

open Leb128

theorem two_le_roomy (capacity : Nat) : 2 ≤ roomy capacity :=
  Nat.le_trans (by decide) (Nat.le_max_right capacity PackedNode.margin)

def Holds (a : PackedArray) (parts : List (List UInt32)) : Prop :=
  List.Forall₂ PackedNode.Holds a.chain.nodes.toList parts

theorem Holds.shows {a : PackedArray} {parts : List (List UInt32)} (h : a.Holds parts) :
    a.chain.Shows parts :=
  h.imp fun _ _ => PackedNode.Holds.shows

/-- Puts the code of a word behind those of the tail. -/
def put (a : PackedArray) (v : UInt32) : PackedArray :=
  { a with chain := a.chain.modify a.chain.last (·.put v) }

theorem holds_put {a : PackedArray} {parts : List (List UInt32)} (h : a.Holds parts)
    (hroom : a.chain.tail.HasRoom) (v : UInt32) :
    a.chain.Extends (a.put v).chain ∧
      ∃ parts', (a.put v).Holds parts' ∧ Lengthens parts parts' ∧
        parts'.flatten = parts.flatten ++ [v] :=
  Chain.exists_forall₂_modify_last h fun _ hvs =>
    ⟨hvs.put hroom v, hvs.extends (hvs.put hroom v)⟩

/-- The array with a further word, for which a node is appended if the tail is short of free
bytes. -/
def grown (a : PackedArray) (v : UInt32) : PackedArray :=
  if a.chain.tail.HasRoom then a.put v
  else (a.append (roomy (a.growth.next a.chain.tail.capacity))).put v

/-- A new array. -/
def made (g : Growth) : PackedArray := ⟨g, .singleton { capacity := roomy g.initial }⟩

/-- The array that took these words in turn. -/
def ofWords (g : Growth) (l : List UInt32) : PackedArray := l.foldl grown (made g)

theorem holds_grown {a : PackedArray} {parts : List (List UInt32)} (h : a.Holds parts)
    (v : UInt32) :
    a.chain.Extends (a.grown v).chain ∧
      ∃ parts', (a.grown v).Holds parts' ∧ Lengthens parts parts' ∧
        parts'.flatten = parts.flatten ++ [v] := by
  unfold grown
  split
  · rename_i hroom
    exact holds_put h hroom v
  · have hnew := hasRoom_append a (a.growth.next a.chain.tail.capacity)
    have hgrown :
        (a.append (roomy (a.growth.next a.chain.tail.capacity))).Holds (parts ++ [[]]) :=
      Chain.forall₂_append h (PackedNode.holds_new (two_le_roomy _))
    obtain ⟨hext, parts', hparts', hlengthens, hflat⟩ := holds_put hgrown hnew v
    refine ⟨(Chain.extends_append a.chain _).trans hext, parts', hparts', ?_, by simpa using hflat⟩
    exact (Lengthens.part parts).trans hlengthens

/-- Storing bytes one by one into the tail of an array is storing them into its last node. -/
theorem storeFrom_eq {a : PackedArray} {spot : Spot} (hspot : spot.node = a.chain.last) (i : Nat)
    (bytes : List UInt8) :
    a.storeFrom spot i bytes =
      { a with
        chain := a.chain.modify a.chain.last (·.storeFrom (spot.offset + i) bytes) } := by
  induction bytes generalizing a i with
  | nil =>
      have hsame : a.chain.modify a.chain.last (·.storeFrom (spot.offset + i) []) = a.chain :=
        Chain.modify_last_eq_self a.chain rfl
      rw [hsame]
      rfl
  | cons byte bytes ih =>
      have hnode : spot.node = (a.store spot i byte).chain.last := by
        rw [hspot, store, Chain.last_modify]
      rw [storeFrom, ih hnode (i + 1)]
      simp only [store, hspot, Chain.last_modify, Chain.modify_last_modify_last]
      rfl

theorem finish_storeFrom (a : PackedArray) (v : UInt32) :
    ((a.takeBytes (encode v).length).storeFrom a.nextSpot 0 (encode v)).finish a.nextSpot =
      a.put v := by
  have hspot : a.nextSpot.node = (a.takeBytes (encode v).length).chain.last := by
    simp [nextSpot, takeBytes]
  rw [storeFrom_eq hspot]
  have hchain : ((a.chain.modify a.chain.last (·.reserve (encode v).length)).modify a.chain.last
      (·.storeFrom a.chain.tail.cells.size (encode v))).modify a.chain.last
        (·.finish a.chain.tail.cells.size) = a.chain.modify a.chain.last (·.put v) := by
    rw [Chain.modify_last_modify_last, Chain.modify_last_modify_last]
    apply Chain.ext_toList
    simp only [Chain.toList_modify_last, Function.comp_apply, PackedNode.put]
  simpa [finish, takeBytes, nextSpot, put] using hchain

variable [SlabSource σ]

theorem reserve_of_room {s : Store σ} {a : PackedArray} (hroom : a.chain.tail.HasRoom)
    (width : Nat) : reserve width (s, a) = .ok a.nextSpot (s, a.takeBytes width) := by
  rw [reserve]
  simp [hroom]

theorem reserve_of_full {s : Store σ} {a : PackedArray} (hroom : ¬ a.chain.tail.HasRoom)
    (width : Nat) :
    reserve width (s, a) =
      match grow (s, a) with
      | .ok () state => reserve width state
      | .error fault state => .error fault state := by
  rw [reserve]
  simp only [hroom, dite_false]
  split <;> rename_i heq <;> rw [heq]

theorem push_of_room {s : Store σ} {a : PackedArray} (hroom : a.chain.tail.HasRoom) (v : UInt32) :
    push v (s, a) = .ok () (s, a.put v) := by
  simp only [push, reserve_of_room hroom, finish_storeFrom]

/-- A push on a full tail puts the word at the front of a new node, or fails without a trace in the
array. -/
theorem push_of_full {s : Store σ} {a : PackedArray} (hroom : ¬ a.chain.tail.HasRoom)
    (v : UInt32) :
    push v (s, a) =
      match allocateNode (roomy (a.growth.next a.chain.tail.capacity)) s with
      | .ok () s =>
          .ok () (s.record (.packedNodeAppended (roomy (a.growth.next a.chain.tail.capacity))),
            (a.append (roomy (a.growth.next a.chain.tail.capacity))).put v)
      | .error fault s => .error fault (s, a) := by
  rw [push, reserve_of_full hroom, grow]
  cases allocateNode (roomy (a.growth.next a.chain.tail.capacity)) s with
  | error fault s => rfl
  | ok u s => exact push_of_room (hasRoom_append a _) v

/-- A push that succeeds does the same to the array whatever the store. -/
theorem grown_of_push_ok {s s' : Store σ} {a a' : PackedArray} {v : UInt32} {u : Unit}
    (hpush : push v (s, a) = .ok u (s', a')) : a' = a.grown v := by
  unfold grown
  split
  · rename_i hroom
    rw [push_of_room hroom] at hpush
    obtain ⟨-, rfl⟩ : s = s' ∧ a.put v = a' := by simpa using hpush
    rfl
  · rename_i hroom
    rw [push_of_full hroom] at hpush
    split at hpush
    · obtain ⟨-, rfl⟩ : _ ∧ (a.append _).put v = a' := by simpa using hpush
      rfl
    · simp at hpush

/-- A push fails only for want of a node, and leaves the array as it is. -/
theorem refused_of_push_error {s s' : Store σ} {a a' : PackedArray} {v : UInt32} {fault : Fault}
    (hpush : push v (s, a) = .error fault (s', a')) :
    a' = a ∧ allocateNode (roomy (a.growth.next a.chain.tail.capacity)) s = .error fault s' := by
  by_cases hroom : a.chain.tail.HasRoom
  · simp [push_of_room hroom] at hpush
  · rw [push_of_full hroom] at hpush
    split at hpush
    · simp at hpush
    · rename_i hnode
      obtain ⟨rfl, rfl, rfl⟩ : _ = fault ∧ _ = s' ∧ a = a' := by simpa using hpush
      exact ⟨rfl, hnode⟩

theorem push_error {s s' : Store σ} {a a' : PackedArray} {v : UInt32} {fault : Fault}
    (hpush : push v (s, a) = .error fault (s', a')) : a' = a :=
  (refused_of_push_error hpush).1

/-- Pushing words in turn puts those accepted behind the others, and leaves what readers see before
them. -/
theorem pushAll_holds (words : List UInt32) {s : Store σ} {a : PackedArray}
    {parts : List (List UInt32)} (h : a.Holds parts) :
    a.chain.Extends (finalState (pushAll words (s, a))).2.chain ∧
      ∃ parts', (finalState (pushAll words (s, a))).2.Holds parts' ∧ Lengthens parts parts' ∧
        parts'.flatten = parts.flatten ++ accepted push words (s, a) := by
  apply pushEach_adds push (P := fun b l => a.chain.Extends b.chain ∧
    ∃ parts', b.Holds parts' ∧ Lengthens parts parts' ∧ parts'.flatten = l)
  · rintro s s' b b' l v u ⟨hext, parts', hparts', hlengthens, rfl⟩ hpush
    obtain rfl := grown_of_push_ok hpush
    obtain ⟨hext', parts'', hparts'', hlengthens', hflat⟩ := holds_grown hparts' v
    exact ⟨hext.trans hext', parts'', hparts'', hlengthens.trans hlengthens', hflat⟩
  · rintro s s' b b' l v fault hb hpush
    obtain rfl := push_error hpush
    exact hb
  · exact ⟨Chain.Extends.refl _, parts, h, .refl parts, rfl⟩

def Contains (a : PackedArray) (l : List UInt32) : Prop :=
  ∃ parts, a.Holds parts ∧ parts.flatten = l

theorem pushAll_contains (words : List UInt32) {s : Store σ} {a : PackedArray} {l : List UInt32}
    (h : a.Contains l) :
    (finalState (pushAll words (s, a))).2.Contains (l ++ accepted push words (s, a)) ∧
      a.chain.Extends (finalState (pushAll words (s, a))).2.chain := by
  obtain ⟨parts, hparts, rfl⟩ := h
  obtain ⟨hext, parts', hparts', -, hflat⟩ := pushAll_holds words (s := s) hparts
  exact ⟨⟨parts', hparts', hflat⟩, hext⟩

omit [SlabSource σ] in
theorem holds_made (g : Growth) : (made g : PackedArray).Holds [[]] :=
  .cons (PackedNode.holds_new (two_le_roomy _)) .nil

theorem eq_made_of_create {g : Growth} {s s' : Store σ} {a : PackedArray}
    (h : create g s = .ok a s') : a = made g := by
  simp only [create] at h
  split at h
  · simp at h
  · split at h
    · obtain ⟨rfl, -⟩ : _ = a ∧ _ := by simpa using h
      rfl
    · simp at h

theorem create_holds {g : Growth} {s s' : Store σ} {a : PackedArray}
    (h : create g s = .ok a s') : a.Holds [[]] :=
  eq_made_of_create h ▸ holds_made g

omit [SlabSource σ] in
theorem ofWords_concat (g : Growth) (l : List UInt32) (v : UInt32) :
    ofWords g (l ++ [v]) = (ofWords g l).grown v := by
  simp [ofWords]

omit [SlabSource σ] in
theorem settings_ofWords (g : Growth) (l : List UInt32) : (ofWords g l).growth = g := by
  induction l using List.reverseRecOn with
  | nil => exact rfl
  | append_singleton l v ih =>
      rw [ofWords_concat, grown]
      split <;> exact ih

/-- Whatever is refused on the way, the accepted words alone make the array what it is. -/
theorem pushAll_ofWords (g : Growth) (l words : List UInt32) (s : Store σ) :
    (finalState (pushAll words (s, ofWords g l))).2 =
      ofWords g (l ++ accepted push words (s, ofWords g l)) := by
  apply pushEach_adds push (P := fun b l => b = ofWords g l)
  · rintro s s' b b' l v u rfl hpush
    rw [ofWords_concat]
    exact grown_of_push_ok hpush
  · rintro s s' b b' l v fault rfl hpush
    exact push_error hpush
  · rfl

end PackedArray

end GrowArena
