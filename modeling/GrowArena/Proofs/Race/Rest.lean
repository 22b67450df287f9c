import GrowArena.Proofs.Race.Packed
import GrowArena.Proofs.Race.Typed

/-!
Races between states of rest. An array that holds values while nothing is in flight is as after a
race in which all of them have landed, so writers can begin there; and when their race is over, the
array holds values again, those that were accepted behind the others. In between, wherever the race
stands, what is reserved lies within the nodes.
-/

namespace GrowArena

variable {σ β ν α π : Type}

/-- A push that is complete. -/
def Entry.ofValue (v : α) : Entry α π := { thread := 0, value := v, pending := none }

theorem Entry.landed_ofValue {vs : List α} {e : Entry α π} (he : e ∈ vs.map ofValue) :
    e.landed = true := by
  obtain ⟨v, -, rfl⟩ := List.mem_map.mp he
  rfl

theorem Entry.map_value_ofValue (vs : List α) :
    (vs.map ofValue : List (Entry α π)).map value = vs := by
  simp [List.map_map, Function.comp_def, ofValue]

/-- Nodes hold values as complete pushes leave them there. -/
structure Layout.Rests (L : Layout ν α π) (H : ν → List α → Prop) : Prop where
  carries : ∀ n vs, H n vs → L.Carries n (vs.map Entry.ofValue)
  holds : ∀ n es, L.Carries n es → (∀ e ∈ es, e.landed = true) → H n (es.map Entry.value)

namespace Chain

variable {L : Layout ν α π} {H : ν → List α → Prop} {c : Chain ν} {parts : List (List α)}

theorem lies_of_holds (hrests : L.Rests H) (h : List.Forall₂ H c.nodes.toList parts) :
    c.Lies L (parts.map (·.map Entry.ofValue)) where
  carries := List.forall₂_map_right_iff.mpr (h.imp hrests.carries)
  fits i j es e p hes he hp := by
    rw [List.getElem?_map] at hes
    obtain ⟨vs, -, rfl⟩ := Option.map_eq_some_iff.mp hes
    rw [List.getElem?_map] at he
    obtain ⟨v, -, rfl⟩ := Option.map_eq_some_iff.mp he
    cases hp

theorem Lies.holds (hrests : L.Rests H) {board : Board α π} (h : c.Lies L board)
    (hlanded : ∀ e ∈ board.flatten, e.landed = true) :
    List.Forall₂ H c.nodes.toList (board.map (·.map Entry.value)) := by
  rw [List.forall₂_map_right_iff]
  obtain ⟨hcarries, -⟩ := h
  generalize c.nodes.toList = nodes at hcarries
  induction hcarries with
  | nil => exact .nil
  | cons hnode _ ih =>
      rw [List.flatten_cons] at hlanded
      obtain ⟨hthis, hrest⟩ := List.forall_mem_append.mp hlanded
      exact .cons (hrests.holds _ _ hnode hthis) (ih hrest)

end Chain

namespace Race

variable [Staged β ν α] {L : Layout ν α (Staged.Pending β)} {H : ν → List α → Prop} {a : β}
  {parts : List (List α)}

/-- Nothing is in flight, and these values have landed. -/
def atRest (s : Store σ) (a : β) (values : List α) : Race σ β :=
  { store := s, array := a, claims := values.map (0, ·) }

theorem lies_atRest (hrests : L.Rests H)
    (h : List.Forall₂ H (Staged.chain a).nodes.toList parts) (s : Store σ) :
    (atRest s a parts.flatten).Lies L (parts.map (·.map Entry.ofValue)) where
  lies := Chain.lies_of_holds hrests h
  claims_eq := by
    rw [← List.map_flatten, List.map_map]
    rfl
  flying_eq thread := by
    rw [Board.flying, ← List.map_flatten]
    refine List.filter_eq_nil_iff.mpr fun e he => ?_
    simp [Entry.landed_ofValue he]

variable [Segment ν α] [SlabSource σ] {left : Staged.Pending β → Nat}

/-- After a race of writers the array holds what it held and what was accepted, which is all that
was not given up. -/
theorem racePush_rests (hL : L.Kept σ β) (hpaced : Staged.Paced σ β left) (hrests : L.Rests H)
    (h : List.Forall₂ H (Staged.chain a).nodes.toList parts) (s : Store σ)
    (values : List (List α)) (schedule : Schedule) :
    let out := racePush values schedule (s, a)
    ∃ accepted parts', List.Forall₂ H (Staged.chain out.2.2).nodes.toList parts' ∧
      parts'.flatten = parts.flatten ++ accepted ∧
      accepted.length + (out.1.refusals.map (·.values.length)).sum = values.flatten.length := by
  intro out
  have hlies := lies_atRest hrests h s
  obtain ⟨moves, claims, hdown, hstate, hclaims, hcount⟩ :=
    racePush_counts hL hpaced hlies (fun _ => rfl) values schedule
  obtain ⟨-, board, hboard⟩ := lies_run hL moves hlies
  have harray : ((atRest s a parts.flatten).run moves).array = out.2.2 := congrArg Prod.snd hstate
  refine ⟨claims.map Prod.snd, board.map (·.map Entry.value), ?_, ?_, ?_⟩
  · rw [← harray]
    exact hboard.lies.holds hrests (hboard.landed_of_settled hdown)
  · rw [← List.map_flatten, hboard.map_value, hclaims, List.map_append, atRest, List.map_map]
    congr 1
    exact List.map_id _
  · rw [List.length_map]
    exact hcount

/-- Wherever a race of writers stands, the array is in line with claims, and what the writers have
pending is what is in flight. -/
theorem exists_lies_racing (hL : L.Kept σ β) (hrests : L.Rests H)
    (h : List.Forall₂ H (Staged.chain a).nodes.toList parts) (s : Store σ)
    (values : List (List α)) (schedule : Schedule) :
    let race := schedule.run Writer.watchedTurn (values.map fun todo => { todo })
      ((s, a), { cursor := (Staged.chain a).start })
    ∃ (r : Race σ β) (board : Board α (Staged.Pending β)), r.Lies L board ∧
      r.array = race.2.1.2 ∧
      ∀ (i : Nat) w, race.1[i]? = some w → (r.flights i).map Prod.snd = w.pending := by
  intro race
  have hlies := lies_atRest hrests h s
  obtain ⟨moves, claims, hmirrors, hstate, -⟩ :=
    watched_run hL hlies (fun _ => rfl) values schedule
  obtain ⟨-, board, hboard⟩ := lies_run hL moves hlies
  refine ⟨_, board, hboard, congrArg Prod.snd hstate, ?_⟩
  intro i w hw
  obtain ⟨hi, -⟩ := List.getElem?_eq_some_iff.mp hw
  have hl := List.getElem?_eq_getElem (hmirrors.length_eq ▸ hi : i < values.length)
  exact (hmirrors.follows i _ w hl hw).pending_eq

end Race

namespace TypedArray

theorem rests : (layout (α := α)).Rests TypedNode.Holds where
  carries n vs h := by
    refine ⟨h.orderly, ?_⟩
    rw [h.slots_eq, List.map_map]
    rfl
  holds n es h hlanded := by
    refine TypedNode.Orderly.holds h.orderly ?_
    rw [h.slots_eq, List.map_map]
    refine List.map_congr_left fun e he => ?_
    simp [TypedNode.slotOf, hlanded e he]

end TypedArray

namespace PackedNode

open Leb128

theorem cellsOf_of_landed {e : Entry UInt32 PackedArray.Pending} (he : e.landed = true) :
    cellsOf e = codeCells e.value := by
  cases hp : e.pending with
  | none => simp [cellsOf, hp]
  | some p => simp [Entry.landed, hp] at he

theorem Carries.holds {n : PackedNode} {es : List (Entry UInt32 PackedArray.Pending)}
    (h : n.Carries es) (hlanded : ∀ e ∈ es, e.landed = true) : n.Holds (es.map Entry.value) where
  cells_eq := by
    rw [h.cells_eq, List.flatMap_map]
    exact List.flatMap_congr fun e he => cellsOf_of_landed (hlanded e he)
  published_eq := by
    rw [h.published_eq, h.size_eq, Board.front, List.takeWhile_eq_self_iff.mpr hlanded]
  size_le := h.size_le

theorem Holds.carries {n : PackedNode} {vs : List UInt32} (h : n.Holds vs) :
    n.Carries (vs.map Entry.ofValue) where
  cells_eq := by
    rw [h.cells_eq, List.flatMap_map]
    rfl
  published_eq := by
    rw [h.published_eq, h.size_eq, length_flatMap_encode, Board.front,
      List.takeWhile_eq_self_iff.mpr fun _ => Entry.landed_ofValue, Entry.map_value_ofValue]
  size_le := h.size_le

end PackedNode

namespace PackedArray

open Leb128

theorem rests : layout.Rests PackedNode.Holds where
  carries _ _ h := h.carries
  holds _ _ h hlanded := PackedNode.Carries.holds h hlanded

/-- What is pending of the push of a word lies within its node: the bytes of its whole code, and the
mark at the first of them. -/
def InBounds (a : PackedArray) (p : Pending) : Prop :=
  ∃ n v, a.chain.nodes.toList[p.spot.node]? = some n ∧ p.rest = (encode v).drop p.stored ∧
    p.spot.offset + width v + 2 ≤ n.capacity ∧ p.spot.offset / 8 < readyBytes n.capacity

/-- A reservation ends within the cells of its node. -/
theorem inBounds_of_lies {r : Race σ PackedArray}
    {board : Board UInt32 (Staged.Pending PackedArray)} (h : r.Lies layout board) {thread : Nat}
    {v : UInt32} {p : Pending} (hflight : r.flights thread = some (v, p)) :
    r.array.InBounds p := by
  obtain ⟨i, j, es, hes, he⟩ := Board.exists_of_mem_flatten (h.mem_of_flight hflight)
  obtain ⟨hspot, hrest⟩ : p.spot = ⟨i, _⟩ ∧ p.rest = _ := h.lies.fits i j es _ p hes he rfl
  obtain ⟨n, hn, hcarries⟩ := exists_of_forall₂ h.lies.carries.flip hes
  have hsize := PackedNode.Carries.size_eq hcarries
  have hle := PackedNode.Carries.size_le hcarries
  have hends : (((es.map Entry.value).take j).map width).sum + width v ≤
      ((es.map Entry.value).map width).sum := by
    have hvalue : (es.map Entry.value)[j]? = some v := by rw [List.getElem?_map, he]; rfl
    obtain ⟨hj, hvj⟩ := List.getElem?_eq_some_iff.mp hvalue
    have hsplit := List.take_append_drop (j + 1) (es.map Entry.value)
    rw [List.take_succ_eq_append_getElem hj, hvj] at hsplit
    conv_rhs => rw [← hsplit]
    simp only [List.map_append, List.sum_append, List.map_singleton, List.sum_singleton]
    omega
  have hpos := width_pos v
  have hmargin : p.spot.offset + width v + 2 ≤ n.capacity := by
    rw [hspot]
    dsimp only
    omega
  exact ⟨n, v, by rw [hspot]; exact hn, hrest, hmargin, div_lt_readyBytes (by omega)⟩

end PackedArray

end GrowArena
