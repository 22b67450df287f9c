import GrowArena.Proofs.Arena.Pushing
import GrowArena.Proofs.Chain.Contents
import GrowArena.Proofs.Typed.Node
import GrowArena.Typed.Basic
import Mathlib.Data.List.Induction

/-!
What a typed array holds while no claim is pending. Every claimed slot is then written and
published, so each node holds a list of values; a push adds its value to the last of these lists or
starts a new one, and a push that fails changes nothing.
-/

namespace GrowArena

open Segment

variable {σ α : Type}

namespace TypedNode

/-- Every claimed slot is written and published, and the values are these. -/
structure Holds (n : TypedNode α) (vs : List α) : Prop where
  slots_eq : n.slots.toList = vs.map some
  claims_eq : n.claims = vs.length
  published_eq : n.published = vs.length
  length_le : vs.length ≤ n.capacity

theorem holds_new (capacity : Nat) : Holds ({ capacity } : TypedNode α) [] where
  slots_eq := rfl
  claims_eq := rfl
  published_eq := rfl
  length_le := Nat.zero_le _

theorem Holds.front_eq {n : TypedNode α} {vs : List α} (h : n.Holds vs) : n.front = vs := by
  rw [front, h.slots_eq, written_map]

theorem Holds.orderly {n : TypedNode α} {vs : List α} (h : n.Holds vs) : n.Orderly := by
  have hsize : n.slots.size = vs.length := by
    rw [← Array.length_toList, h.slots_eq, List.length_map]
  refine ⟨?_, ?_, ?_⟩
  · rw [h.claims_eq, hsize]
  · rw [hsize]
    exact h.length_le
  · rw [h.front_eq, h.published_eq]

theorem Orderly.holds {n : TypedNode α} {vs : List α} (h : n.Orderly)
    (hslots : n.slots.toList = vs.map some) : n.Holds vs := by
  have hsize : n.slots.size = vs.length := by
    rw [← Array.length_toList, hslots, List.length_map]
  have hfront : n.front = vs := by rw [front, hslots, written_map]
  refine ⟨hslots, ?_, ?_, ?_⟩
  · rw [h.claims_eq, hsize]
  · rw [h.published_eq, hfront]
  · rw [← hsize]
    exact h.size_le

theorem Holds.shows {n : TypedNode α} {vs : List α} (h : n.Holds vs) : Shows n vs :=
  h.front_eq ▸ h.orderly.shows

theorem Holds.visible_eq {n : TypedNode α} {vs : List α} (h : n.Holds vs) : n.visible = vs := by
  rw [visible, h.slots_eq, h.published_eq, List.take_of_length_le (by simp)]
  simp

/-- Values put behind others leave what is published before them as it is. -/
theorem Holds.extends {n n' : TypedNode α} {vs ws : List α} (h : n.Holds vs)
    (h' : n'.Holds (vs ++ ws)) : Segment.Extends n n' := by
  apply h.orderly.extends h'.orderly
  rw [h.front_eq, h'.front_eq]
  exact List.prefix_append vs ws

/-- Claims the next slot and writes it at once. -/
def put (n : TypedNode α) (v : α) : TypedNode α := n.claim.write n.claims v

theorem Holds.put {n : TypedNode α} {vs : List α} (h : n.Holds vs) (hroom : n.HasRoom) (v : α) :
    (n.put v).Holds (vs ++ [v]) := by
  obtain ⟨hclaim, -⟩ := h.orderly.claim hroom
  have hslots : n.claim.slots.toList = vs.map some ++ [none] := by
    simp [claim, hroom, h.slots_eq]
  have hslot : n.claim.slots[n.claims]? = some none := by
    rw [← Array.getElem?_toList, hslots, h.claims_eq]
    simp
  apply (hclaim.write hslot v).1.holds
  simp [write, publish, hslots, h.claims_eq]

end TypedNode

namespace TypedArray

def Holds (a : TypedArray α) (parts : List (List α)) : Prop :=
  List.Forall₂ TypedNode.Holds a.chain.nodes.toList parts

theorem Holds.shows {a : TypedArray α} {parts : List (List α)} (h : a.Holds parts) :
    a.chain.Shows parts :=
  h.imp fun _ _ => TypedNode.Holds.shows

/-- The nodes are destroyed from the head on, each from its highest slot down. -/
theorem Holds.destructionOrder_eq {a : TypedArray α} {parts : List (List α)} (h : a.Holds parts) :
    a.destructionOrder = parts.flatMap List.reverse := by
  have hnodes : ∀ {ns : List (TypedNode α)} {parts : List (List α)},
      List.Forall₂ TypedNode.Holds ns parts →
        ns.flatMap (·.visible.reverse) = parts.flatMap List.reverse := by
    intro ns parts hns
    induction hns with
    | nil => rfl
    | cons hn _ ih => rw [List.flatMap_cons, List.flatMap_cons, hn.visible_eq, ih]
  exact hnodes h

/-- Puts a value into the next slot of the tail. -/
def put (a : TypedArray α) (v : α) : TypedArray α :=
  { a with chain := a.chain.modify a.chain.last (·.put v) }

theorem holds_put {a : TypedArray α} {parts : List (List α)} (h : a.Holds parts)
    (hroom : a.chain.tail.HasRoom) (v : α) :
    a.chain.Extends (a.put v).chain ∧
      ∃ parts', (a.put v).Holds parts' ∧ Lengthens parts parts' ∧
        parts'.flatten = parts.flatten ++ [v] :=
  Chain.exists_forall₂_modify_last h fun _ hvs =>
    ⟨hvs.put hroom v, hvs.extends (hvs.put hroom v)⟩

/-- The array with a further value, for which a node is appended if the tail is full. -/
def grown (a : TypedArray α) (v : α) : TypedArray α :=
  if a.chain.tail.HasRoom then a.put v
  else (a.append (a.growth.next a.chain.tail.capacity)).put v

/-- A new array. -/
def made (f : Footprint) (g : Growth) : TypedArray α := ⟨f, g, .singleton { capacity := g.initial }⟩

/-- The array that took these values in turn. -/
def ofValues (f : Footprint) (g : Growth) (l : List α) : TypedArray α := l.foldl grown (made f g)

theorem holds_grown {a : TypedArray α} {parts : List (List α)} (h : a.Holds parts) (v : α) :
    a.chain.Extends (a.grown v).chain ∧
      ∃ parts', (a.grown v).Holds parts' ∧ Lengthens parts parts' ∧
        parts'.flatten = parts.flatten ++ [v] := by
  unfold grown
  split
  · rename_i hroom
    exact holds_put h hroom v
  · have hnew := hasRoom_append a (Growth.one_le_next a.growth a.chain.tail.capacity)
    have hgrown : (a.append (a.growth.next a.chain.tail.capacity)).Holds (parts ++ [[]]) :=
      Chain.forall₂_append h (TypedNode.holds_new _)
    obtain ⟨hext, parts', hparts', hlengthens, hflat⟩ := holds_put hgrown hnew v
    refine ⟨(Chain.extends_append a.chain _).trans hext, parts', hparts', ?_, by simpa using hflat⟩
    exact (Lengthens.part parts).trans hlengthens

theorem complete_claimTail (a : TypedArray α) (v : α) :
    a.claimTail.complete a.nextTicket v = a.put v := by
  have hchain : (a.chain.modify a.chain.last TypedNode.claim).modify a.chain.last
      (·.write a.chain.tail.claims v) = a.chain.modify a.chain.last (·.put v) := by
    rw [Chain.modify_last_modify_last]
    apply Chain.ext_toList
    simp only [Chain.toList_modify_last, Function.comp_apply, TypedNode.put]
  simp only [complete, claimTail, nextTicket, put, hchain]

variable [SlabSource σ]

theorem claim_of_room {s : Store σ} {a : TypedArray α} (hroom : a.chain.tail.HasRoom) :
    claim (s, a) = .ok a.nextTicket (s, a.claimTail) := by
  rw [claim]
  simp [hroom]

theorem claim_of_full {s : Store σ} {a : TypedArray α} (hroom : ¬ a.chain.tail.HasRoom) :
    claim (s, a) =
      match grow (s, a.claimTail) with
      | .ok () state => claim state
      | .error fault state => .error fault state := by
  rw [claim]
  simp only [hroom, dite_false]
  split <;> rename_i heq <;> rw [heq]

theorem push_of_room {s : Store σ} {a : TypedArray α} (hroom : a.chain.tail.HasRoom) (v : α) :
    push v (s, a) = .ok () (s, a.put v) := by
  simp only [push, claim_of_room hroom, complete_claimTail]

omit [SlabSource σ] in
theorem pinTail_claimTail {a : TypedArray α} (htail : a.chain.tail.claims ≤ a.chain.tail.capacity)
    (hroom : ¬ a.chain.tail.HasRoom) : a.claimTail.pinTail = a := by
  have hchain : a.chain.modify a.chain.last (TypedNode.pin ∘ TypedNode.claim) = a.chain :=
    Chain.modify_last_eq_self a.chain (TypedNode.pin_claim htail hroom)
  simp [claimTail, pinTail, Chain.modify_last_modify_last, hchain]

/-- A claim on a full tail gets the first slot of a new node, or fails without a trace in the
array. -/
theorem claim_of_full_of_le {s : Store σ} {a : TypedArray α}
    (htail : a.chain.tail.claims ≤ a.chain.tail.capacity) (hroom : ¬ a.chain.tail.HasRoom) :
    claim (s, a) =
      match allocateNode a.footprint (a.growth.next a.chain.tail.capacity) s with
      | .ok () s =>
          .ok (a.append (a.growth.next a.chain.tail.capacity)).nextTicket
            (s.record (.typedNodeAppended (a.growth.next a.chain.tail.capacity)),
              (a.append (a.growth.next a.chain.tail.capacity)).claimTail)
      | .error fault s => .error fault (s, a) := by
  have hcapacity : a.claimTail.chain.tail.capacity = a.chain.tail.capacity := by
    simp [claimTail, TypedNode.claim]
  have hgrow : grow (s, a.claimTail) =
      match allocateNode a.footprint (a.growth.next a.chain.tail.capacity) s with
      | .ok () s =>
          .ok () (s.record (.typedNodeAppended (a.growth.next a.chain.tail.capacity)),
            a.append (a.growth.next a.chain.tail.capacity))
      | .error fault s => .error fault (s, a) := by
    simp only [grow, pinTail_claimTail htail hroom, hcapacity]
    rfl
  rw [claim_of_full hroom, hgrow]
  cases allocateNode a.footprint (a.growth.next a.chain.tail.capacity) s with
  | error fault s => rfl
  | ok u s =>
      exact claim_of_room (hasRoom_append a (Growth.one_le_next a.growth a.chain.tail.capacity))

/-- A push on a full tail puts the value into the first slot of a new node, or fails without a
trace in the array. -/
theorem push_of_full {s : Store σ} {a : TypedArray α}
    (htail : a.chain.tail.claims ≤ a.chain.tail.capacity) (hroom : ¬ a.chain.tail.HasRoom) (v : α) :
    push v (s, a) =
      match allocateNode a.footprint (a.growth.next a.chain.tail.capacity) s with
      | .ok () s =>
          .ok () (s.record (.typedNodeAppended (a.growth.next a.chain.tail.capacity)),
            (a.append (a.growth.next a.chain.tail.capacity)).put v)
      | .error fault s => .error fault (s, a) := by
  rw [push, claim_of_full_of_le htail hroom]
  cases allocateNode a.footprint (a.growth.next a.chain.tail.capacity) s with
  | error fault s => rfl
  | ok u s => simp only [complete_claimTail]

/-- A push that succeeds does the same to the array whatever the store. -/
theorem grown_of_push_ok {s s' : Store σ} {a a' : TypedArray α} {parts : List (List α)}
    (h : a.Holds parts) {v : α} {u : Unit} (hpush : push v (s, a) = .ok u (s', a')) :
    a' = a.grown v := by
  unfold grown
  split
  · rename_i hroom
    rw [push_of_room hroom] at hpush
    obtain ⟨-, rfl⟩ : s = s' ∧ a.put v = a' := by simpa using hpush
    rfl
  · rename_i hroom
    obtain ⟨_, _, _, htail, _⟩ := Chain.exists_tail_of_forall₂ h
    rw [push_of_full htail.orderly.claims_le hroom] at hpush
    split at hpush
    · obtain ⟨-, rfl⟩ : _ ∧ (a.append _).put v = a' := by simpa using hpush
      rfl
    · simp at hpush

/-- A push fails only for want of a node, and leaves the array as it is. -/
theorem refused_of_push_error {s s' : Store σ} {a a' : TypedArray α} {parts : List (List α)}
    (h : a.Holds parts) {v : α} {fault : Fault} (hpush : push v (s, a) = .error fault (s', a')) :
    a' = a ∧
      allocateNode a.footprint (a.growth.next a.chain.tail.capacity) s = .error fault s' := by
  by_cases hroom : a.chain.tail.HasRoom
  · simp [push_of_room hroom] at hpush
  · obtain ⟨_, _, _, htail, _⟩ := Chain.exists_tail_of_forall₂ h
    rw [push_of_full htail.orderly.claims_le hroom] at hpush
    split at hpush
    · simp at hpush
    · rename_i hnode
      obtain ⟨rfl, rfl, rfl⟩ : _ = fault ∧ _ = s' ∧ a = a' := by simpa using hpush
      exact ⟨rfl, hnode⟩

theorem push_error {s s' : Store σ} {a a' : TypedArray α} {parts : List (List α)}
    (h : a.Holds parts) {v : α} {fault : Fault} (hpush : push v (s, a) = .error fault (s', a')) :
    a' = a :=
  (refused_of_push_error h hpush).1

/-- Pushing values in turn puts those accepted behind the others, and leaves what readers see before
them. -/
theorem pushAll_holds (values : List α) {s : Store σ} {a : TypedArray α} {parts : List (List α)}
    (h : a.Holds parts) :
    a.chain.Extends (finalState (pushAll values (s, a))).2.chain ∧
      ∃ parts', (finalState (pushAll values (s, a))).2.Holds parts' ∧ Lengthens parts parts' ∧
        parts'.flatten = parts.flatten ++ accepted push values (s, a) := by
  apply pushEach_adds push (P := fun b l => a.chain.Extends b.chain ∧
    ∃ parts', b.Holds parts' ∧ Lengthens parts parts' ∧ parts'.flatten = l)
  · rintro s s' b b' l v u ⟨hext, parts', hparts', hlengthens, rfl⟩ hpush
    obtain rfl := grown_of_push_ok hparts' hpush
    obtain ⟨hext', parts'', hparts'', hlengthens', hflat⟩ := holds_grown hparts' v
    exact ⟨hext.trans hext', parts'', hparts'', hlengthens.trans hlengthens', hflat⟩
  · rintro s s' b b' l v fault ⟨hext, parts', hparts', hrest⟩ hpush
    obtain rfl := push_error hparts' hpush
    exact ⟨hext, parts', hparts', hrest⟩
  · exact ⟨Chain.Extends.refl _, parts, h, .refl parts, rfl⟩

def Contains (a : TypedArray α) (l : List α) : Prop := ∃ parts, a.Holds parts ∧ parts.flatten = l

theorem pushAll_contains (values : List α) {s : Store σ} {a : TypedArray α} {l : List α}
    (h : a.Contains l) :
    (finalState (pushAll values (s, a))).2.Contains (l ++ accepted push values (s, a)) ∧
      a.chain.Extends (finalState (pushAll values (s, a))).2.chain := by
  obtain ⟨parts, hparts, rfl⟩ := h
  obtain ⟨hext, parts', hparts', -, hflat⟩ := pushAll_holds values (s := s) hparts
  exact ⟨⟨parts', hparts', hflat⟩, hext⟩

omit [SlabSource σ] in
theorem holds_made (f : Footprint) (g : Growth) : (made f g : TypedArray α).Holds [[]] :=
  .cons (TypedNode.holds_new _) .nil

theorem eq_made_of_create {f : Footprint} {g : Growth} {s s' : Store σ} {a : TypedArray α}
    (h : create f g s = .ok a s') : a = made f g := by
  simp only [create] at h
  split at h
  · simp at h
  · split at h
    · obtain ⟨rfl, -⟩ : _ = a ∧ _ := by simpa using h
      rfl
    · simp at h

theorem create_holds {f : Footprint} {g : Growth} {s s' : Store σ} {a : TypedArray α}
    (h : create f g s = .ok a s') : a.Holds [[]] :=
  eq_made_of_create h ▸ holds_made f g

omit [SlabSource σ] in
theorem ofValues_concat (f : Footprint) (g : Growth) (l : List α) (v : α) :
    ofValues f g (l ++ [v]) = (ofValues f g l).grown v := by
  simp [ofValues]

omit [SlabSource σ] in
theorem contains_ofValues (f : Footprint) (g : Growth) (l : List α) :
    (ofValues f g l).Contains l := by
  induction l using List.reverseRecOn with
  | nil => exact ⟨[[]], holds_made f g, rfl⟩
  | append_singleton l v ih =>
      obtain ⟨parts, hparts, rfl⟩ := ih
      obtain ⟨-, parts', hparts', -, hflat⟩ := holds_grown hparts v
      rw [ofValues_concat]
      exact ⟨parts', hparts', hflat⟩

omit [SlabSource σ] in
theorem settings_ofValues (f : Footprint) (g : Growth) (l : List α) :
    (ofValues f g l).footprint = f ∧ (ofValues f g l).growth = g := by
  induction l using List.reverseRecOn with
  | nil => exact ⟨rfl, rfl⟩
  | append_singleton l v ih =>
      rw [ofValues_concat, grown]
      split <;> exact ih

/-- Whatever is refused on the way, the accepted values alone make the array what it is. -/
theorem pushAll_ofValues (f : Footprint) (g : Growth) (l values : List α) (s : Store σ) :
    (finalState (pushAll values (s, ofValues f g l))).2 =
      ofValues f g (l ++ accepted push values (s, ofValues f g l)) := by
  apply pushEach_adds push (P := fun b l => b = ofValues f g l)
  · rintro s s' b b' l v u rfl hpush
    rw [ofValues_concat]
    obtain ⟨parts, hparts, -⟩ := contains_ofValues f g l
    exact grown_of_push_ok hparts hpush
  · rintro s s' b b' l v fault rfl hpush
    obtain ⟨parts, hparts, -⟩ := contains_ofValues f g l
    exact push_error hparts hpush
  · rfl

end TypedArray

end GrowArena
