import GrowArena.Proofs.Race.Writers
import GrowArena.Proofs.Typed.Lookup

/-!
Typed pushes that are completed in any order. A slot is written as soon as its push is complete, and
each node shows the values of its longest run of complete pushes, so that the last to close a gap
publishes whatever was completed behind it.
-/

namespace GrowArena

variable {σ α π : Type}

namespace TypedNode

/-- What a push has left in its slot. -/
def slotOf (e : Entry α π) : Option α := if e.landed then some e.value else none

/-- The slots are those of the claims. -/
structure Carries (n : TypedNode α) (es : List (Entry α π)) : Prop where
  orderly : n.Orderly
  slots_eq : n.slots.toList = es.map slotOf

theorem written_map_slotOf (es : List (Entry α π)) :
    written (es.map slotOf) = Board.front es := by
  induction es with
  | nil => rfl
  | cons e es ih =>
      cases he : e.landed with
      | true => simp [slotOf, he, written, ih, Board.front_cons_of_landed he]
      | false => simp [slotOf, he, written, Board.front_cons_of_open he]

theorem Carries.front_eq {n : TypedNode α} {es : List (Entry α π)} (h : n.Carries es) :
    n.front = Board.front es := by
  rw [front, h.slots_eq, written_map_slotOf]

theorem Carries.shows {n : TypedNode α} {es : List (Entry α π)} (h : n.Carries es) :
    Segment.Shows n (Board.front es) :=
  h.front_eq ▸ h.orderly.shows

theorem Carries.published_eq {n : TypedNode α} {es : List (Entry α π)} (h : n.Carries es) :
    n.published = (Board.front es).length := by
  rw [h.orderly.published_eq, h.front_eq]

theorem Carries.claims_eq {n : TypedNode α} {es : List (Entry α π)} (h : n.Carries es) :
    n.claims = es.length := by
  rw [h.orderly.claims_eq, ← Array.length_toList, h.slots_eq, List.length_map]

theorem carries_new (capacity : Nat) :
    Carries ({ capacity } : TypedNode α) ([] : List (Entry α π)) where
  orderly := orderly_new capacity
  slots_eq := rfl

theorem Carries.claim {n : TypedNode α} {es : List (Entry α π)} (h : n.Carries es)
    (hroom : n.HasRoom) {e : Entry α π} (he : e.landed = false) :
    n.claim.Carries (es ++ [e]) ∧ Segment.Extends n n.claim := by
  obtain ⟨horderly, hfront⟩ := h.orderly.claim hroom
  refine ⟨⟨horderly, ?_⟩, h.orderly.extends horderly (hfront ▸ List.prefix_refl _)⟩
  simp [TypedNode.claim, hroom, h.slots_eq, slotOf, he]

theorem Carries.write {n : TypedNode α} {es : List (Entry α π)} (h : n.Carries es) {j : Nat}
    {e : Entry α π} (he : es[j]? = some e) (hflying : e.landed = false) :
    (n.write j e.value).Carries (es.set j { e with pending := none }) ∧
      Segment.Extends n (n.write j e.value) := by
  have hslot : n.slots[j]? = some none := by
    rw [← Array.getElem?_toList, h.slots_eq, List.getElem?_map, he]
    simp [slotOf, hflying]
  obtain ⟨horderly, hfront⟩ := h.orderly.write hslot e.value
  refine ⟨⟨horderly, ?_⟩, h.orderly.extends horderly hfront⟩
  simp [TypedNode.write, publish, h.slots_eq, List.map_set, slotOf, Entry.landed]

end TypedNode

namespace TypedArray

/-- A ticket names the node and the number of claims before its own. -/
def layout : Layout (TypedNode α) α (Staged.Pending (TypedArray α)) where
  Carries := TypedNode.Carries
  Fits i before v p := p = (⟨i, before.length⟩, v)

theorem lies_claimTail {a : TypedArray α} {board : Board α (Staged.Pending (TypedArray α))}
    (h : a.chain.Lies layout board) (hroom : a.chain.tail.HasRoom) (thread : Nat) (v : α) :
    a.chain.Extends a.claimTail.chain ∧ ∃ board', a.claimTail.chain.Lies layout board' ∧
      board'.flatten = board.flatten ++ [⟨thread, v, some (a.nextTicket, v)⟩] := by
  apply h.add
  intro es hes
  obtain ⟨hcarries, hext⟩ := hes.claim hroom (e := ⟨thread, v, some (a.nextTicket, v)⟩) rfl
  refine ⟨hcarries, hext, ?_⟩
  rintro p ⟨rfl⟩
  simp [layout, nextTicket, hes.claims_eq]

theorem lies_append {a : TypedArray α} {board : Board α (Staged.Pending (TypedArray α))}
    (h : a.chain.Lies layout board) (capacity : Nat) :
    (a.append capacity).chain.Lies layout (board ++ [[]]) :=
  Chain.Lies.append h (TypedNode.carries_new capacity)

theorem tail_orderly {a : TypedArray α} {board : Board α (Staged.Pending (TypedArray α))}
    (h : a.chain.Lies layout board) : a.chain.tail.Orderly := by
  obtain ⟨_, es, -, htail, -⟩ := Chain.exists_tail_of_forall₂ h.carries
  exact TypedNode.Carries.orderly htail

theorem lies_made (f : Footprint) (g : Growth) (s : Store σ) :
    Race.Lies layout { store := s, array := .made f g : Race σ (TypedArray α) } [[]] :=
  ⟨Chain.lies_singleton (TypedNode.carries_new _), rfl, fun _ => rfl⟩

theorem represents_of_lies {a : TypedArray α} {board : Board α (Staged.Pending (TypedArray α))}
    (h : a.chain.Lies layout board) : a.Represents board.fronts.flatten := by
  have horderly : ∀ n ∈ a.chain.nodes.toList, n.Orderly := by
    intro n hn
    obtain ⟨i, hi⟩ := List.getElem?_of_mem hn
    obtain ⟨es, -, hcarries⟩ := exists_of_forall₂ h.carries hi
    exact TypedNode.Carries.orderly hcarries
  have hshows : a.chain.Shows board.fronts := h.shows fun n es hn => TypedNode.Carries.shows hn
  have hfronts : a.chain.nodes.toList.map TypedNode.front = board.fronts :=
    (shows_of_orderly horderly).unique hshows
  rw [← hfronts]
  exact represents_of_orderly horderly

theorem represents_of_settled {r : Race σ (TypedArray α)}
    {board : Board α (Staged.Pending (TypedArray α))} (h : r.Lies layout board)
    (hsettled : r.Settled) : r.array.Represents (r.claims.map Prod.snd) :=
  h.fronts_of_settled hsettled ▸ represents_of_lies h.lies

variable [SlabSource σ]

theorem kept_layout : Layout.Kept σ (TypedArray α) layout where
  shows _ _ h := TypedNode.Carries.shows h
  claim_ok := by
    intro s s' a a' board v p thread h hclaim
    simp only [Staged.claim] at hclaim
    by_cases hroom : a.chain.tail.HasRoom
    · obtain ⟨rfl, -, rfl⟩ : (a.nextTicket, v) = p ∧ s = s' ∧ a.claimTail = a' := by
        simpa [claim_of_room hroom] using hclaim
      exact lies_claimTail h hroom thread v
    · rw [claim_of_full_of_le (tail_orderly h).claims_le hroom] at hclaim
      cases hnode : allocateNode a.footprint (a.growth.next a.chain.tail.capacity) s with
      | error fault s => simp [hnode] at hclaim
      | ok u s =>
          obtain ⟨rfl, -, rfl⟩ : ((a.append _).nextTicket, v) = p ∧ _ = s' ∧
              (a.append _).claimTail = a' := by simpa [hnode] using hclaim
          have hnew := hasRoom_append a (Growth.one_le_next a.growth a.chain.tail.capacity)
          obtain ⟨hext, board', hlies, hflat⟩ := lies_claimTail (lies_append h _) hnew thread v
          refine ⟨(Chain.extends_append a.chain _).trans hext, board', hlies, ?_⟩
          simpa using hflat
  claim_error := by
    intro s s' a a' board v fault h hclaim
    simp only [Staged.claim] at hclaim
    by_cases hroom : a.chain.tail.HasRoom
    · simp [claim_of_room hroom] at hclaim
    · rw [claim_of_full_of_le (tail_orderly h).claims_le hroom] at hclaim
      cases hnode : allocateNode a.footprint (a.growth.next a.chain.tail.capacity) s with
      | error fault s =>
          obtain ⟨-, -, rfl⟩ : _ ∧ _ ∧ a = a' := by simpa [hnode] using hclaim
          rfl
      | ok u s => simp [hnode] at hclaim
  proceed := by
    intro a board i j es e p h hes he hp
    obtain rfl : p = (⟨i, j⟩, e.value) := by
      have hfits := h.fits i j es e p hes he hp
      obtain ⟨hj, -⟩ := List.getElem?_eq_some_iff.mp he
      simpa [layout, Nat.min_eq_left (Nat.le_of_lt hj)] using hfits
    have hflying : e.landed = false := by simp [Entry.landed, hp]
    apply h.change hes he
    · intro n hn
      exact hn.write he hflying
    · intro p hp
      cases hp

theorem paced : Staged.Paced σ (TypedArray α) fun _ => 0 where
  steps_pos := Nat.two_pos
  claim_lt _ := Nat.one_lt_two
  proceed_lt := nofun

end TypedArray

open Race in
/-- However the completions of pushes fall, each node publishes its longest run of complete pushes
and takes nothing back, and all ways of looking at the array agree with these runs. When nothing is
in flight they have every claimed value, each once and in the order of the claims, so those of one
thread in the order of its pushes. -/
theorem typed_pushes_complete_in_any_order [SlabSource σ] (f : Footprint) (g : Growth) (s : Store σ)
    (moves : List (Move σ α)) :
    let r : Race σ (TypedArray α) := run moves { store := s, array := .made f g }
    ∃ board, r.Lies TypedArray.layout board ∧
      List.Forall₂ (fun n es => n.published = (Board.front es).length)
        r.array.chain.nodes.toList board ∧
      r.array.Represents board.fronts.flatten ∧
      (∀ later, r.array.chain.Extends (r.run later).array.chain) ∧
      (r.Settled → r.array.Represents (r.claims.map Prod.snd) ∧
        ∀ thread, (valuesOf thread r.claims).Sublist r.array.chain.toList) := by
  intro r
  obtain ⟨-, board, h⟩ := lies_run TypedArray.kept_layout moves (TypedArray.lies_made f g s)
  refine ⟨board, h, ?_, TypedArray.represents_of_lies h.lies, ?_, ?_⟩
  · exact h.lies.carries.imp fun n es hn => TypedNode.Carries.published_eq hn
  · intro later
    exact (lies_run TypedArray.kept_layout later h).1
  · intro hsettled
    have hall := TypedArray.represents_of_settled h hsettled
    refine ⟨hall, ?_⟩
    intro thread
    rw [hall.toList_eq]
    exact List.filter_sublist.map Prod.snd

/-- Two pushes, the second of which is complete first. -/
def Race.crossing : Race LinearHeap (TypedArray Nat) :=
  run [.claim 0 7, .claim 1 8, .proceed 1, .proceed 0]
    { store := { source := {}, arena := .ofBlockSize 64 }, array := .made ⟨4, 4⟩ ⟨2, .threeHalves⟩ }

theorem crossing_pushes_settle :
    Race.crossing.Settled ∧ Race.crossing.array.Represents [7, 8] := by
  have hsettled : Race.crossing.Settled := by
    apply Race.settled_run _ (fun _ => rfl) 2
    · simp [Move.thread?]
    · decide +kernel
  have hclaims : Race.crossing.claims.map Prod.snd = [7, 8] := by decide +kernel
  obtain ⟨board, -, -, -, -, hall⟩ := typed_pushes_complete_in_any_order ⟨4, 4⟩ ⟨2, .threeHalves⟩
    { source := {}, arena := .ofBlockSize 64 : Store LinearHeap }
    [.claim 0 7, .claim 1 8, .proceed 1, .proceed 0]
  have hrepresents := (hall hsettled).1
  exact ⟨hsettled, hclaims ▸ hrepresents⟩

open Race in
/-- Any schedule of a race of writers ends with all their values in the array, behind those that it
had, unless some had to be given up. -/
theorem typed_race_settles [SlabSource σ] (f : Footprint) (g : Growth) (s : Store σ)
    (moves : List (Move σ α)) (values : List (List α)) (schedule : Schedule) :
    let r : Race σ (TypedArray α) := run moves { store := s, array := .made f g }
    let out := racePush values schedule (r.store, r.array)
    r.Settled → ∃ claims, out.1.Accounts (r.claims.map Prod.snd) values claims ∧
      out.2.2.Represents (r.claims.map Prod.snd ++ claims.map Prod.snd) := by
  intro r out hsettled
  obtain ⟨-, board, h⟩ := lies_run TypedArray.kept_layout moves (TypedArray.lies_made f g s)
  obtain ⟨more, claims, hdown, hstate, hclaims, haccounts⟩ := racePush_settles
    TypedArray.kept_layout TypedArray.paced h hsettled values schedule
  obtain ⟨-, board', h'⟩ := lies_run TypedArray.kept_layout more h
  have hall := TypedArray.represents_of_settled h' hdown
  rw [hclaims, List.map_append] at hall
  have harray : (r.run more).array = out.2.2 := congrArg Prod.snd hstate
  exact ⟨claims, haccounts, harray ▸ hall⟩

end GrowArena
