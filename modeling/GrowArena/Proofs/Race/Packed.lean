import GrowArena.Proofs.Packed.Contents
import GrowArena.Proofs.Race.Writers

/-!
Packed pushes whose bytes are stored in any order. The cells of a node are those of its
reservations, end to end: only a complete one is marked, and only at its first byte, so publication
runs from code to code over the longest run of complete reservations and never into bytes that are
still being stored.
-/

namespace GrowArena

open Leb128

variable {σ : Type}

/-- The cells of a reservation for a word, the first `stored` bytes of whose code are stored. -/
def openCells (v : UInt32) (stored : Nat) : List Cell :=
  ((encode v).take stored ++ List.replicate ((encode v).length - stored) 0).map
    fun byte => { byte }

theorem length_openCells (v : UInt32) (stored : Nat) :
    (openCells v stored).length = (encode v).length := by
  simp only [openCells, List.length_map, List.length_append, List.length_take,
    List.length_replicate]
  omega

theorem openCells_zero (v : UInt32) :
    openCells v 0 = List.replicate (encode v).length ({} : Cell) := by
  simp [openCells]

theorem openCells_store {v : UInt32} {stored : Nat} {byte : UInt8} {rest : List UInt8}
    (h : byte :: rest = (encode v).drop stored) :
    (openCells v stored).modify stored ({ · with byte }) = openCells v (stored + 1) := by
  obtain ⟨before, hcode, hlength⟩ :
      ∃ before, encode v = before ++ byte :: rest ∧ before.length = stored := by
    refine ⟨(encode v).take stored, by rw [h, List.take_append_drop], ?_⟩
    have hdrop := congrArg List.length h
    simp only [List.length_cons, List.length_drop] at hdrop
    rw [List.length_take]
    omega
  have hold : openCells v stored =
      before.map (fun byte => ({ byte } : Cell)) ++
        ({} : Cell) :: List.replicate rest.length {} := by
    simp [openCells, hcode, ← hlength, List.replicate_succ]
  have hnew : openCells v (stored + 1) =
      before.map (fun byte => ({ byte } : Cell)) ++
        ({ byte } : Cell) :: List.replicate rest.length {} := by
    have htake : (before ++ byte :: rest).take (stored + 1) = before ++ [byte] := by
      simp [← hlength, List.take_append, List.take_of_length_le]
    have hrest : (before ++ byte :: rest).length - (stored + 1) = rest.length := by
      simp only [List.length_append, List.length_cons]
      omega
    rw [openCells, hcode, htake, hrest]
    simp
  have hmap : stored = (before.map fun byte => ({ byte } : Cell)).length := by simp [hlength]
  rw [hold, hnew, hmap, PackedNode.modify_append_cons]

theorem openCells_finish {v : UInt32} {stored : Nat} (h : [] = (encode v).drop stored) :
    (openCells v stored).modify 0 ({ · with ready := true }) = codeCells v := by
  have hle : (encode v).length ≤ stored := List.drop_eq_nil_iff.mp h.symm
  obtain ⟨byte, bytes, hcode, hcells⟩ := codeCells_eq v
  have hstored : openCells v stored = { byte } :: bytes.map fun byte => { byte } := by
    rw [openCells, List.take_of_length_le hle, Nat.sub_eq_zero_of_le hle, hcode]
    simp
  rw [hstored, hcells]
  rfl

theorem not_ready_of_openCells {v : UInt32} {stored : Nat} {cell : Cell}
    (h : cell ∈ openCells v stored) : cell.ready = false := by
  obtain ⟨byte, -, rfl⟩ := List.mem_map.mp h
  rfl

namespace PackedNode

/-- The cells of a reservation, as far as its push has come. -/
def cellsOf (e : Entry UInt32 PackedArray.Pending) : List Cell :=
  match e.pending with
  | none => codeCells e.value
  | some p => openCells e.value p.stored

theorem length_cellsOf (e : Entry UInt32 PackedArray.Pending) :
    (cellsOf e).length = width e.value := by
  unfold cellsOf
  split
  · rw [length_codeCells, length_encode]
  · rw [length_openCells, length_encode]

theorem length_flatMap_cellsOf (es : List (Entry UInt32 PackedArray.Pending)) :
    (es.flatMap cellsOf).length = ((es.map Entry.value).map width).sum := by
  induction es with
  | nil => rfl
  | cons e es ih => simp [ih, length_cellsOf]

/-- The cells are those of the reservations, and what is published is the longest run of complete
ones. Two bytes at the end of a node are never reserved. -/
structure Carries (n : PackedNode) (es : List (Entry UInt32 PackedArray.Pending)) : Prop where
  cells_eq : n.cells.toList = es.flatMap cellsOf
  published_eq : n.published = ((Board.front es).map width).sum
  size_le : n.cells.size + 2 ≤ n.capacity

theorem carries_new {capacity : Nat} (h : 2 ≤ capacity) : Carries { capacity } [] where
  cells_eq := rfl
  published_eq := rfl
  size_le := by simpa using h

/-- The run of complete reservations, and a cell that is not ready behind it. -/
theorem exists_cells_eq (es : List (Entry UInt32 PackedArray.Pending)) :
    ∃ after, es.flatMap cellsOf = (Board.front es).flatMap codeCells ++ after ∧
      ∀ cell ∈ after.head?, cell.ready = false := by
  induction es with
  | nil => exact ⟨[], rfl, by simp⟩
  | cons e es ih =>
      cases he : e.pending with
      | none =>
          obtain ⟨after, hafter, hready⟩ := ih
          refine ⟨after, ?_, hready⟩
          have hlanded : Board.front (e :: es) = e.value :: Board.front es :=
            Board.front_cons_of_landed (by simp [Entry.landed, he])
          rw [hlanded, List.flatMap_cons, List.flatMap_cons, hafter, cellsOf, he, List.append_assoc]
      | some p =>
          have hlanded : Board.front (e :: es) = [] :=
            Board.front_cons_of_open (by simp [Entry.landed, he])
          refine ⟨(e :: es).flatMap cellsOf, by rw [hlanded]; rfl, ?_⟩
          intro cell hcell
          have hcells : cellsOf e = openCells e.value p.stored := by rw [cellsOf, he]
          have hpos : cellsOf e ≠ [] := by
            rw [← List.length_pos_iff, length_cellsOf]
            exact width_pos e.value
          rw [List.flatMap_cons, List.head?_append_of_ne_nil _ hpos, hcells] at hcell
          exact not_ready_of_openCells (List.mem_of_mem_head? hcell)

theorem Carries.fronts {n : PackedNode} {es : List (Entry UInt32 PackedArray.Pending)}
    (h : n.Carries es) : n.Fronts (Board.front es) where
  cells_prefix := by
    obtain ⟨after, hafter, -⟩ := exists_cells_eq es
    rw [h.cells_eq, hafter]
    exact List.prefix_append ..
  published_eq := by rw [h.published_eq, length_flatMap_encode]

theorem Carries.published_le {n : PackedNode} {es : List (Entry UInt32 PackedArray.Pending)}
    (h : n.Carries es) : n.published ≤ n.cells.size := by
  have hprefix := h.fronts.cells_prefix.length_le
  rwa [length_flatMap_codeCells, ← h.fronts.published_eq, Array.length_toList] at hprefix

theorem Carries.shows {n : PackedNode} {es : List (Entry UInt32 PackedArray.Pending)}
    (h : n.Carries es) : Segment.Shows n (Board.front es) :=
  h.fronts.shows

theorem Carries.size_eq {n : PackedNode} {es : List (Entry UInt32 PackedArray.Pending)}
    (h : n.Carries es) : n.cells.size = ((es.map Entry.value).map width).sum := by
  rw [← Array.length_toList, h.cells_eq, length_flatMap_cellsOf]

/-- A change within the cells of one reservation. -/
theorem flatMap_cellsOf_set {es : List (Entry UInt32 PackedArray.Pending)} {j k : Nat}
    {e d : Entry UInt32 PackedArray.Pending} {f : Cell → Cell} (he : es[j]? = some e)
    (hk : k < (cellsOf e).length) (hd : (cellsOf e).modify k f = cellsOf d) :
    (es.flatMap cellsOf).modify ((((es.map Entry.value).take j).map width).sum + k) f =
      (es.set j d).flatMap cellsOf := by
  obtain ⟨hj, rfl⟩ := List.getElem?_eq_some_iff.mp he
  have hsplit : es.flatMap cellsOf =
      (es.take j).flatMap cellsOf ++ cellsOf es[j] ++ (es.drop (j + 1)).flatMap cellsOf := by
    have hlist : es = es.take j ++ es[j] :: es.drop (j + 1) := by
      rw [← List.drop_eq_getElem_cons hj, List.take_append_drop]
    conv_lhs => rw [hlist, List.flatMap_append, List.flatMap_cons, ← List.append_assoc]
  have hoffset : (((es.map Entry.value).take j).map width).sum =
      ((es.take j).flatMap cellsOf).length := by
    simp only [length_flatMap_cellsOf, List.map_take]
  rw [hsplit, hoffset, modify_append_middle _ hk, hd, List.set_eq_take_append_cons_drop, if_pos hj]
  simp

theorem Carries.reserve {n : PackedNode} {es : List (Entry UInt32 PackedArray.Pending)}
    (h : n.Carries es) (hroom : n.HasRoom) {e : Entry UInt32 PackedArray.Pending}
    {p : PackedArray.Pending} (he : e.pending = some p) (hp : p.stored = 0) :
    (n.reserve (encode e.value).length).Carries (es ++ [e]) ∧
      Segment.Extends n (n.reserve (encode e.value).length) := by
  have hopen : e.landed = false := by simp [Entry.landed, he]
  have hcarries : (n.reserve (encode e.value).length).Carries (es ++ [e]) := by
    refine ⟨?_, ?_, ?_⟩
    · simp [PackedNode.reserve, h.cells_eq, cellsOf, he, hp, openCells_zero]
    · rw [Board.front_append hopen]
      exact h.published_eq
    · have hwidth := width_le e.value
      rw [← length_encode] at hwidth
      simp only [HasRoom, margin, maxWidth] at hroom hwidth
      simp only [PackedNode.reserve, Array.size_append, Array.size_replicate]
      omega
  have hfront : Board.front (es ++ [e]) = Board.front es := Board.front_append hopen
  exact ⟨hcarries, h.fronts.extends hcarries.fronts (hfront ▸ List.prefix_refl _)⟩

theorem Carries.store {n : PackedNode} {es : List (Entry UInt32 PackedArray.Pending)}
    (h : n.Carries es) {j : Nat} {e : Entry UInt32 PackedArray.Pending} {p q : PackedArray.Pending}
    {byte : UInt8} {rest : List UInt8} (he : es[j]? = some e) (hp : e.pending = some p)
    (hrest : byte :: rest = (encode e.value).drop p.stored) (hq : q.stored = p.stored + 1) :
    (n.store ((((es.map Entry.value).take j).map width).sum + p.stored) byte).Carries
        (es.set j { e with pending := some q }) ∧
      Segment.Extends n
        (n.store ((((es.map Entry.value).take j).map width).sum + p.stored) byte) := by
  have hopen : e.landed = false := by simp [Entry.landed, hp]
  have hstored : p.stored < (cellsOf e).length := by
    have hdrop := congrArg List.length hrest
    simp only [List.length_cons, List.length_drop] at hdrop
    rw [length_cellsOf, ← length_encode]
    omega
  have hlanded : Board.front (es.set j { e with pending := some q }) = Board.front es :=
    Board.front_set he hopen rfl
  have hcarries : (n.store ((((es.map Entry.value).take j).map width).sum + p.stored) byte).Carries
      (es.set j { e with pending := some q }) := by
    refine ⟨?_, ?_, ?_⟩
    · rw [PackedNode.store, Array.toList_modify, h.cells_eq]
      apply flatMap_cellsOf_set he hstored
      simp only [cellsOf, hp, hq]
      exact openCells_store hrest
    · rw [hlanded]
      exact h.published_eq
    · simpa [PackedNode.store] using h.size_le
  exact ⟨hcarries, h.fronts.extends hcarries.fronts (hlanded ▸ List.prefix_refl _)⟩

theorem Carries.finish {n : PackedNode} {es : List (Entry UInt32 PackedArray.Pending)}
    (h : n.Carries es) {j : Nat} {e : Entry UInt32 PackedArray.Pending} {p : PackedArray.Pending}
    (he : es[j]? = some e) (hp : e.pending = some p)
    (hrest : [] = (encode e.value).drop p.stored) :
    (n.finish (((es.map Entry.value).take j).map width).sum).Carries
        (es.set j { e with pending := none }) ∧
      Segment.Extends n (n.finish (((es.map Entry.value).take j).map width).sum) := by
  have hopen : e.landed = false := by simp [Entry.landed, hp]
  obtain ⟨m, hfinish, hcells, hcapacity, hpublished⟩ :
      ∃ m : PackedNode, n.finish (((es.map Entry.value).take j).map width).sum = m.publish ∧
        m.cells.toList = (es.set j { e with pending := none }).flatMap cellsOf ∧
          m.capacity = n.capacity ∧ m.published = n.published := by
    refine ⟨_, rfl, ?_, rfl, rfl⟩
    have hpos : 0 < (cellsOf e).length := by
      rw [length_cellsOf]
      exact width_pos e.value
    rw [Array.toList_modify, h.cells_eq]
    apply flatMap_cellsOf_set (k := 0) he hpos
    simp only [cellsOf, hp]
    exact openCells_finish hrest
  have hsize : m.cells.size = n.cells.size := by
    rw [h.size_eq, ← Array.length_toList, hcells, length_flatMap_cellsOf, Entry.map_value_set he]
  obtain ⟨more, hmore⟩ := Board.front_prefix_set (d := { e with pending := none }) he hopen
  obtain ⟨after, hafter, hready⟩ := exists_cells_eq (es.set j { e with pending := none })
  have hpublish : m.publish.published =
      ((Board.front (es.set j { e with pending := none })).map width).sum := by
    have hrun : m.cells.toList =
        (Board.front es).flatMap codeCells ++ more.flatMap codeCells ++ after := by
      rw [hcells, hafter, ← hmore, List.flatMap_append]
    have hbound := h.size_le
    have hfrom := readyFrom_of_cells _ more hrun hready (by omega)
    rw [length_flatMap_codeCells, ← h.fronts.published_eq] at hfrom
    rw [publish, hpublished, hfrom, h.published_eq, ← hmore, List.map_append, List.sum_append,
      length_flatMap_encode]
  have hcarries : m.publish.Carries (es.set j { e with pending := none }) := by
    refine ⟨hcells, hpublish, ?_⟩
    have hbound := h.size_le
    rw [← hsize, ← hcapacity] at hbound
    exact hbound
  rw [hfinish]
  exact ⟨hcarries, h.fronts.extends hcarries.fronts ⟨more, hmore⟩⟩

end PackedNode

namespace PackedArray

/-- A reservation starts where those before it end, and has the rest of its code to store. -/
def layout : Layout PackedNode UInt32 (Staged.Pending PackedArray) where
  Carries := PackedNode.Carries
  Fits i before v p :=
    p.spot = ⟨i, (before.map width).sum⟩ ∧ p.rest = (encode v).drop p.stored

theorem lies_takeBytes {a : PackedArray} {board : Board UInt32 (Staged.Pending PackedArray)}
    (h : a.chain.Lies layout board) (hroom : a.chain.tail.HasRoom) (thread : Nat) (v : UInt32) :
    a.chain.Extends (a.takeBytes (encode v).length).chain ∧
      ∃ board', (a.takeBytes (encode v).length).chain.Lies layout board' ∧
        board'.flatten =
          board.flatten ++ [⟨thread, v, some ⟨a.nextSpot, 0, encode v⟩⟩] := by
  apply h.add
  intro es hes
  obtain ⟨hcarries, hext⟩ :=
    hes.reserve hroom (e := ⟨thread, v, some ⟨a.nextSpot, 0, encode v⟩⟩) rfl rfl
  refine ⟨hcarries, hext, ?_⟩
  rintro p ⟨rfl⟩
  have hspot : a.nextSpot = ⟨a.chain.last, ((es.map Entry.value).map width).sum⟩ := by
    rw [nextSpot, hes.size_eq]
    rfl
  exact ⟨hspot, rfl⟩

theorem lies_append {a : PackedArray} {board : Board UInt32 (Staged.Pending PackedArray)}
    (h : a.chain.Lies layout board) (capacity : Nat) :
    (a.append (roomy capacity)).chain.Lies layout (board ++ [[]]) :=
  Chain.Lies.append h (PackedNode.carries_new (two_le_roomy capacity))

theorem yields_of_lies {a : PackedArray} {board : Board UInt32 (Staged.Pending PackedArray)}
    (h : a.chain.Lies layout board) : a.chain.Yields a.chain.start board.fronts.flatten :=
  Chain.yields_start (h.shows fun _ _ hn => PackedNode.Carries.shows hn)

theorem lies_made (g : Growth) (s : Store σ) :
    Race.Lies layout { store := s, array := .made g : Race σ PackedArray } [[]] :=
  ⟨Chain.lies_singleton (PackedNode.carries_new (two_le_roomy _)), rfl, fun _ => rfl⟩

variable [SlabSource σ]

theorem kept_layout : Layout.Kept σ PackedArray layout where
  shows _ _ h := PackedNode.Carries.shows h
  claim_ok := by
    intro s s' a a' board v p thread h hclaim
    simp only [Staged.claim] at hclaim
    by_cases hroom : a.chain.tail.HasRoom
    · obtain ⟨rfl, -, rfl⟩ : _ = p ∧ s = s' ∧ a.takeBytes (encode v).length = a' := by
        simpa [reserve_of_room hroom] using hclaim
      exact lies_takeBytes h hroom thread v
    · rw [reserve_of_full hroom, grow] at hclaim
      cases hnode : allocateNode (roomy (a.growth.next a.chain.tail.capacity)) s with
      | error fault s => simp [hnode] at hclaim
      | ok u s =>
          have hnew := hasRoom_append a (a.growth.next a.chain.tail.capacity)
          obtain ⟨rfl, -, rfl⟩ : _ = p ∧ _ = s' ∧
              (a.append _).takeBytes (encode v).length = a' := by
            simpa [hnode, reserve_of_room hnew] using hclaim
          obtain ⟨hext, board', hlies, hflat⟩ := lies_takeBytes (lies_append h _) hnew thread v
          refine ⟨(Chain.extends_append a.chain _).trans hext, board', hlies, ?_⟩
          simpa using hflat
  claim_error := by
    intro s s' a a' board v fault h hclaim
    simp only [Staged.claim] at hclaim
    by_cases hroom : a.chain.tail.HasRoom
    · simp [reserve_of_room hroom] at hclaim
    · rw [reserve_of_full hroom, grow] at hclaim
      cases hnode : allocateNode (roomy (a.growth.next a.chain.tail.capacity)) s with
      | error fault s =>
          obtain ⟨-, -, rfl⟩ : _ ∧ _ ∧ a = a' := by simpa [hnode] using hclaim
          rfl
      | ok u s =>
          have hnew := hasRoom_append a (a.growth.next a.chain.tail.capacity)
          simp [hnode, reserve_of_room hnew] at hclaim
  proceed := by
    intro a board i j es e p h hes he hp
    obtain ⟨hspot, hrest⟩ : p.spot = ⟨i, _⟩ ∧ p.rest = _ := h.fits i j es e p hes he hp
    cases hcode : p.rest with
    | nil =>
        have hproceed : Staged.proceed p a = (none, a.finish p.spot) := by
          simp only [Staged.proceed, PackedArray.proceed, hcode]
        rw [hproceed, finish, hspot]
        apply h.change hes he
        · intro n hn
          exact hn.finish he hp (hcode ▸ hrest)
        · intro q hq
          cases hq
    | cons byte rest =>
        have hproceed : Staged.proceed p a =
            (some { p with stored := p.stored + 1, rest }, a.store p.spot p.stored byte) := by
          simp only [Staged.proceed, PackedArray.proceed, hcode]
        rw [hproceed, store, hspot]
        apply h.change hes he
        · intro n hn
          exact hn.store he hp (hcode ▸ hrest) rfl
        · rintro q ⟨rfl⟩
          refine ⟨rfl, ?_⟩
          have hdrop := congrArg List.tail (hcode ▸ hrest)
          simpa using hdrop

theorem paced : Staged.Paced σ PackedArray fun p : Pending => p.rest.length where
  steps_pos := Nat.succ_pos _
  claim_lt {v state state' p} h := by
    have hrest : p.rest = encode v := by
      simp only [Staged.claim] at h
      split at h
      · obtain ⟨rfl, -⟩ : _ = p ∧ _ := by simpa using h
        rfl
      · simp at h
    rw [hrest, length_encode]
    exact Nat.add_lt_add_right (Nat.lt_succ_of_le (width_le v)) 1
  proceed_lt {a p q} h := by
    simp only [Staged.proceed, PackedArray.proceed] at h
    split at h
    · rename_i byte rest hcode
      obtain rfl := Option.some.inj h
      change rest.length < p.rest.length
      rw [hcode]
      exact Nat.lt_succ_self _
    · simp at h

end PackedArray

open Race in
/-- However the bytes of reservations are stored, each node publishes its longest run of complete
reservations, which ends where a reservation ends, and takes nothing back; a reader finds the words
of these runs in the order of the reservations, and no others. When nothing is in flight it finds
every word, each once. -/
theorem packed_pushes_complete_in_any_order [SlabSource σ] (g : Growth) (s : Store σ)
    (moves : List (Move σ UInt32)) :
    let r : Race σ PackedArray := run moves { store := s, array := .made g }
    ∃ board, r.Lies PackedArray.layout board ∧
      List.Forall₂
        (fun n es => n.published = ((Board.front es).map width).sum ∧ n.published ≤ n.cells.size)
        r.array.chain.nodes.toList board ∧
      r.array.chain.Yields r.array.chain.start board.fronts.flatten ∧
      board.fronts.flatten.Sublist (r.claims.map Prod.snd) ∧
      (∀ later, r.array.chain.Extends (r.run later).array.chain) ∧
      (r.Settled → r.array.chain.Yields r.array.chain.start (r.claims.map Prod.snd)) := by
  intro r
  obtain ⟨-, board, h⟩ := lies_run PackedArray.kept_layout moves (PackedArray.lies_made g s)
  have hyields := PackedArray.yields_of_lies h.lies
  refine ⟨board, h, ?_, hyields, ?_, ?_, ?_⟩
  · apply h.lies.carries.imp
    intro n es hn
    exact ⟨PackedNode.Carries.published_eq hn, PackedNode.Carries.published_le hn⟩
  · rw [← h.map_value]
    exact board.fronts_sublist
  · intro later
    exact (lies_run PackedArray.kept_layout later h).1
  · intro hsettled
    rwa [← h.fronts_of_settled hsettled]

/-- A word of two bytes and one of a single byte, which is complete first. -/
def Race.overtaking : Race LinearHeap PackedArray :=
  run [.claim 0 300, .claim 1 5, .proceed 0, .proceed 1, .proceed 1, .proceed 0, .proceed 0]
    { store := { source := {}, arena := .ofBlockSize 64 }, array := .made .standard }

theorem overtaking_reservations_settle :
    Race.overtaking.Settled ∧
      Race.overtaking.array.chain.Yields Race.overtaking.array.chain.start [300, 5] := by
  have hsettled : Race.overtaking.Settled := by
    apply Race.settled_run _ (fun _ => rfl) 2
    · simp [Move.thread?]
    · decide +kernel
  have hclaims : Race.overtaking.claims.map Prod.snd = [300, 5] := by decide +kernel
  obtain ⟨board, -, -, -, -, -, hall⟩ := packed_pushes_complete_in_any_order .standard
    { source := {}, arena := .ofBlockSize 64 : Store LinearHeap }
    [.claim 0 300, .claim 1 5, .proceed 0, .proceed 1, .proceed 1, .proceed 0, .proceed 0]
  exact ⟨hsettled, hclaims ▸ hall hsettled⟩

open Race in
/-- Any schedule of a race of writers ends with all their words in the array, behind those that it
had, unless some had to be given up. -/
theorem packed_race_settles [SlabSource σ] (g : Growth) (s : Store σ) (moves : List (Move σ UInt32))
    (words : List (List UInt32)) (schedule : Schedule) :
    let r : Race σ PackedArray := run moves { store := s, array := .made g }
    let out := racePush words schedule (r.store, r.array)
    r.Settled → ∃ claims, out.1.Accounts (r.claims.map Prod.snd) words claims ∧
      out.2.2.chain.Yields out.2.2.chain.start
        (r.claims.map Prod.snd ++ claims.map Prod.snd) := by
  intro r out hsettled
  obtain ⟨-, board, h⟩ := lies_run PackedArray.kept_layout moves (PackedArray.lies_made g s)
  obtain ⟨more, claims, hdown, hstate, hclaims, haccounts⟩ := racePush_settles
    PackedArray.kept_layout PackedArray.paced h hsettled words schedule
  obtain ⟨-, board', h'⟩ := lies_run PackedArray.kept_layout more h
  have hyields := PackedArray.yields_of_lies h'.lies
  rw [h'.fronts_of_settled hdown, hclaims, List.map_append] at hyields
  have harray : (r.run more).array = out.2.2 := congrArg Prod.snd hstate
  exact ⟨claims, haccounts, harray ▸ hyields⟩

end GrowArena
