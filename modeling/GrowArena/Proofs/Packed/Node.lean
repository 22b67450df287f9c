import GrowArena.Packed.Node
import GrowArena.Proofs.Chain.Reading
import GrowArena.Proofs.Leb128.Code

/-!
What a packed node holds while no reservation is pending: the codes of a list of words, end to end,
each marked at its first byte and all of them published. Writing another word adds its code, and
the publication that follows, which finds the width by decoding, runs over exactly that code.
-/

namespace GrowArena

open Segment Leb128

/-- The cells of the stored code of a word. -/
def codeCells (v : UInt32) : List Cell :=
  match encode v with
  | [] => []
  | byte :: bytes => { byte, ready := true } :: bytes.map fun byte => { byte }

theorem map_byte_codeCells (v : UInt32) : (codeCells v).map Cell.byte = encode v := by
  unfold codeCells
  cases encode v with
  | nil => rfl
  | cons byte bytes => simp [Function.comp_def]

theorem length_codeCells (v : UInt32) : (codeCells v).length = (encode v).length := by
  rw [← map_byte_codeCells, List.length_map]

theorem encode_ne_nil (v : UInt32) : encode v ≠ [] := by
  rw [← List.length_pos_iff, length_encode]
  exact width_pos v

/-- The code of a word begins with a ready cell, and that is its only one. -/
theorem codeCells_eq (v : UInt32) :
    ∃ byte bytes, encode v = byte :: bytes ∧
      codeCells v = { byte, ready := true } :: bytes.map fun byte => { byte } := by
  unfold codeCells
  cases hcode : encode v with
  | nil => exact absurd hcode (encode_ne_nil v)
  | cons byte bytes => exact ⟨byte, bytes, rfl, rfl⟩

theorem map_byte_flatMap_codeCells (vs : List UInt32) :
    (vs.flatMap codeCells).map Cell.byte = vs.flatMap encode := by
  rw [List.map_flatMap]
  exact List.flatMap_congr fun v _ => map_byte_codeCells v

theorem length_flatMap_codeCells (vs : List UInt32) :
    (vs.flatMap codeCells).length = (vs.flatMap encode).length := by
  rw [← map_byte_flatMap_codeCells, List.length_map]

theorem length_flatMap_encode (vs : List UInt32) :
    (vs.flatMap encode).length = (vs.map width).sum := by
  induction vs with
  | nil => rfl
  | cons v vs ih => simp [ih, length_encode]

namespace PackedNode

/-- The reserved bytes are the codes of these words, all of them ready and published. Two bytes at
the end of a node are never reserved. -/
structure Holds (n : PackedNode) (vs : List UInt32) : Prop where
  cells_eq : n.cells.toList = vs.flatMap codeCells
  published_eq : n.published = n.cells.size
  size_le : n.cells.size + 2 ≤ n.capacity

theorem holds_new {capacity : Nat} (h : 2 ≤ capacity) : Holds { capacity } [] where
  cells_eq := rfl
  published_eq := rfl
  size_le := by simpa using h

theorem Holds.size_eq {n : PackedNode} {vs : List UInt32} (h : n.Holds vs) :
    n.cells.size = (vs.flatMap encode).length := by
  rw [← Array.length_toList, h.cells_eq, length_flatMap_codeCells]

theorem byteAt_of_cells {n : PackedNode} {before code after : List Cell}
    (hcells : n.cells.toList = before ++ code ++ after) {k : Nat} (hk : k < code.length) :
    n.byteAt (before.length + k) = code[k].byte := by
  rw [byteAt, ← Array.getElem?_toList, hcells, List.append_assoc,
    List.getElem?_append_right (Nat.le_add_right ..), Nat.add_sub_cancel_left,
    List.getElem?_append_left hk, List.getElem?_eq_getElem hk, Option.getD_some]

/-- A window that starts at the first byte of a code and does not end within it begins with the
code. -/
theorem window_of_cells {n : PackedNode} {before after : List Cell} {v : UInt32}
    (hcells : n.cells.toList = before ++ codeCells v ++ after) {stop : Nat}
    (hstop : before.length + (encode v).length ≤ stop) :
    ∃ rest, n.window before.length stop = encode v ++ rest := by
  have hwidth : (encode v).length ≤ min (stop - before.length) maxWidth := by
    have := width_le v
    rw [← length_encode] at this
    omega
  obtain ⟨extra, hextra⟩ := Nat.exists_eq_add_of_le hwidth
  refine ⟨(List.range' (before.length + (encode v).length) extra).map n.byteAt, ?_⟩
  rw [window, hextra, ← List.range'_append_1, List.map_append]
  congr 1
  apply List.ext_getElem
  · simp
  · intro k hk hk'
    have hcode : k < (codeCells v).length := by rwa [length_codeCells]
    have hbyte : (codeCells v)[k].byte = (encode v)[k] := by
      have := congrArg (·[k]?) (map_byte_codeCells v)
      simpa [List.getElem?_eq_getElem, hcode, hk'] using this
    simp [byteAt_of_cells hcells hcode, hbyte]

theorem decode?_window {n : PackedNode} {before after : List Cell} {v : UInt32}
    (hcells : n.cells.toList = before ++ codeCells v ++ after) {stop : Nat}
    (hstop : before.length + (encode v).length ≤ stop) :
    decode? (n.window before.length stop) = some (v, (encode v).length) := by
  obtain ⟨rest, hwindow⟩ := window_of_cells hcells hstop
  rw [hwindow, decode?_encode_append]

/-- Publication runs from the end of one code over all codes behind it, up to a cell that is not
ready. -/
theorem readyFrom_of_cells {n : PackedNode} (before : List Cell) (vs : List UInt32)
    {after : List Cell} (hcells : n.cells.toList = before ++ vs.flatMap codeCells ++ after)
    (hafter : ∀ cell ∈ after.head?, cell.ready = false) (hsize : n.cells.size ≤ n.capacity) :
    n.readyFrom before.length = before.length + (vs.flatMap encode).length := by
  induction vs generalizing before with
  | nil =>
      have hcell : n.cells[before.length]? = after.head? := by
        rw [← Array.getElem?_toList, hcells, List.head?_eq_getElem?]
        simp [List.getElem?_append_right]
      rw [readyFrom]
      split
      · rfl
      · rename_i cell hsome
        have hready : cell.ready = false := hafter cell (hcell.symm.trans hsome)
        simp [hready]
  | cons v vs ih =>
      have hcells' : n.cells.toList = before ++ codeCells v ++ (vs.flatMap codeCells ++ after) := by
        simpa using hcells
      have hstop : before.length + (encode v).length ≤ n.capacity := by
        have := congrArg List.length hcells'
        simp only [Array.length_toList, List.length_append, length_codeCells] at this
        omega
      obtain ⟨byte, bytes, -, hcode⟩ := codeCells_eq v
      have hcell : n.cells[before.length]? = some { byte, ready := true } := by
        rw [← Array.getElem?_toList, hcells', hcode]
        simp
      have hnext := ih (before ++ codeCells v) (by simpa using hcells')
      rw [List.length_append, length_codeCells] at hnext
      rw [readyFrom]
      split
      · simp_all
      · rename_i cell heq
        obtain rfl := Option.some.inj (hcell.symm.trans heq)
        have hdecode := decode?_window hcells' hstop
        simp only [if_true]
        split
        · rename_i hsome
          obtain ⟨-, rfl⟩ : v = _ ∧ _ = _ := by simpa [hdecode] using hsome
          rw [hnext, List.flatMap_cons, List.length_append, Nat.add_assoc]
        · rename_i hnone
          simp [hdecode] at hnone

/-- The codes of these words stand at the front, and all that is published is theirs. -/
structure Fronts (n : PackedNode) (vs : List UInt32) : Prop where
  cells_prefix : vs.flatMap codeCells <+: n.cells.toList
  published_eq : n.published = (vs.flatMap encode).length

theorem Holds.fronts {n : PackedNode} {vs : List UInt32} (h : n.Holds vs) : n.Fronts vs where
  cells_prefix := h.cells_eq ▸ List.prefix_refl _
  published_eq := h.published_eq.trans h.size_eq

/-- A reader before the first byte of a word finds the word. -/
theorem Fronts.read?_append {n : PackedNode} {us vs : List UInt32} {v : UInt32}
    (h : n.Fronts (us ++ v :: vs)) :
    n.read? (us.flatMap encode).length n.published = some (v, (encode v).length) := by
  obtain ⟨after, hafter⟩ := h.cells_prefix
  have hcells : n.cells.toList =
      us.flatMap codeCells ++ codeCells v ++ (vs.flatMap codeCells ++ after) := by
    simp [← hafter]
  have hstop : (us.flatMap codeCells).length + (encode v).length ≤ n.published := by
    rw [h.published_eq, length_flatMap_codeCells]
    simp only [List.flatMap_append, List.flatMap_cons, List.length_append]
    omega
  have hpos := List.length_pos_iff.mpr (encode_ne_nil v)
  have hdecode := decode?_window hcells hstop
  rw [length_flatMap_codeCells] at hdecode hstop
  rw [read?, if_pos (by omega), hdecode]

theorem Fronts.reads_append {n : PackedNode} (us vs : List UInt32)
    (h : n.Fronts (us ++ vs)) : Reads n n.published (us.flatMap encode).length vs := by
  induction vs generalizing us with
  | nil =>
      rw [List.append_nil] at h
      exact h.published_eq.symm
  | cons v vs ih =>
      refine ⟨(encode v).length, List.length_pos_iff.mpr (encode_ne_nil v), h.read?_append, ?_⟩
      have hrest := ih (us ++ [v]) (by simpa using h)
      simpa using hrest

theorem Fronts.shows {n : PackedNode} {vs : List UInt32} (h : n.Fronts vs) : Shows n vs :=
  Fronts.reads_append [] vs h

/-- A front that has become longer leaves the bytes before its end as they were. -/
theorem Fronts.extends {n n' : PackedNode} {vs ws : List UInt32} (h : n.Fronts vs)
    (h' : n'.Fronts ws) (hfront : vs <+: ws) : Segment.Extends n n' where
  published_le := by
    obtain ⟨more, rfl⟩ := hfront
    simp [h.published_eq, h'.published_eq]
  read?_eq position stop hstop := by
    obtain ⟨more, rfl⟩ := hfront
    obtain ⟨after, hafter⟩ := h.cells_prefix
    obtain ⟨after', hafter'⟩ := h'.cells_prefix
    rw [segment_published, h.published_eq, ← length_flatMap_codeCells] at hstop
    have hbyte : ∀ i, i < (vs.flatMap codeCells).length → n'.byteAt i = n.byteAt i := by
      intro i hi
      rw [byteAt, byteAt, ← Array.getElem?_toList, ← Array.getElem?_toList, ← hafter, ← hafter',
        List.flatMap_append, List.append_assoc, List.getElem?_append_left hi,
        List.getElem?_append_left hi]
    simp only [segment_read?, read?, window]
    split
    · congr 1
      apply List.map_congr_left
      intro i hi
      rw [List.mem_range'_1] at hi
      exact hbyte i (by omega)
    · rfl

theorem Holds.shows {n : PackedNode} {vs : List UInt32} (h : n.Holds vs) : Shows n vs :=
  h.fronts.shows

theorem Holds.extends {n n' : PackedNode} {vs ws : List UInt32} (h : n.Holds vs)
    (h' : n'.Holds (vs ++ ws)) : Segment.Extends n n' :=
  h.fronts.extends h'.fronts (List.prefix_append vs ws)

/-- Stores bytes one after the other. -/
def storeFrom (n : PackedNode) (position : Nat) : List UInt8 → PackedNode
  | [] => n
  | byte :: bytes => (n.store position byte).storeFrom (position + 1) bytes

theorem modify_append_cons {α : Type} (l : List α) (a : α) (l' : List α) (f : α → α) :
    (l ++ a :: l').modify l.length f = l ++ f a :: l' := by
  rw [List.modify_eq_take_cons_drop (by simp)]
  simp

theorem modify_append_middle {α : Type} (l : List α) {m : List α} {k : Nat} (hk : k < m.length)
    {l' : List α} {f : α → α} :
    (l ++ m ++ l').modify (l.length + k) f = l ++ m.modify k f ++ l' := by
  apply List.ext_getElem?
  intro i
  grind

theorem storeFrom_cells {bytes : List UInt8} {n : PackedNode} {before : List Cell} {start : Nat}
    (hstart : start = before.length)
    (hcells : n.cells.toList = before ++ List.replicate bytes.length ({} : Cell)) :
    (n.storeFrom start bytes).cells.toList =
        before ++ bytes.map (fun byte => ({ byte } : Cell)) ∧
      (n.storeFrom start bytes).capacity = n.capacity ∧
      (n.storeFrom start bytes).published = n.published := by
  induction bytes generalizing n before start with
  | nil => exact ⟨hcells, rfl, rfl⟩
  | cons byte bytes ih =>
      have hstore : (n.store start byte).cells.toList =
          (before ++ [({ byte } : Cell)]) ++ List.replicate bytes.length ({} : Cell) := by
        rw [store, Array.toList_modify, hcells, hstart, List.length_cons, List.replicate_succ,
          modify_append_cons]
        simp
      have hnext : start + 1 = (before ++ [({ byte } : Cell)]).length := by simp [hstart]
      obtain ⟨hrest, hcapacity, hpublished⟩ := ih hnext hstore
      refine ⟨?_, hcapacity, hpublished⟩
      rw [storeFrom, hrest]
      simp

/-- Reserves the bytes of a word's code, stores them and finishes the reservation at once. -/
def put (n : PackedNode) (v : UInt32) : PackedNode :=
  ((n.reserve (encode v).length).storeFrom n.cells.size (encode v)).finish n.cells.size

/-- Before its publication a put adds the code of the word to the cells, and nothing else. -/
theorem exists_put_eq_publish (n : PackedNode) (v : UInt32) :
    ∃ m : PackedNode, n.put v = m.publish ∧ m.cells.toList = n.cells.toList ++ codeCells v ∧
      m.capacity = n.capacity ∧ m.published = n.published := by
  have hreserved : (n.reserve (encode v).length).cells.toList =
      n.cells.toList ++ List.replicate (encode v).length ({} : Cell) := by
    simp [reserve]
  obtain ⟨hstored, hcapacity, hpublished⟩ :=
    storeFrom_cells (Array.length_toList).symm hreserved
  refine ⟨_, rfl, ?_, hcapacity, hpublished⟩
  obtain ⟨byte, bytes, hcode, hcells⟩ := codeCells_eq v
  rw [Array.toList_modify, hstored, hcode, List.map_cons, ← Array.length_toList,
    modify_append_cons, hcells]

theorem Holds.put {n : PackedNode} {vs : List UInt32} (h : n.Holds vs) (hroom : n.HasRoom)
    (v : UInt32) : (n.put v).Holds (vs ++ [v]) := by
  obtain ⟨m, hput, hcells, hcapacity, hpublished⟩ := n.exists_put_eq_publish v
  have hsize : m.cells.size + 2 ≤ m.capacity := by
    have hlength := congrArg List.length hcells
    have hwidth := width_le v
    rw [← length_encode] at hwidth
    simp only [HasRoom, margin, maxWidth] at hroom hwidth
    simp only [Array.length_toList, List.length_append, length_codeCells] at hlength
    omega
  have hready : m.readyFrom m.published = m.cells.size := by
    have hcells' : m.cells.toList = n.cells.toList ++ [v].flatMap codeCells ++ [] := by
      simpa using hcells
    have hready := readyFrom_of_cells n.cells.toList [v] hcells' (by simp) (by omega)
    rw [hpublished, h.published_eq, ← Array.length_toList, hready, ← Array.length_toList, hcells,
      List.length_append, length_codeCells]
    simp
  rw [hput]
  refine ⟨?_, hready, hsize⟩
  change m.cells.toList = _
  rw [hcells, h.cells_eq, List.flatMap_append, List.flatMap_singleton]

theorem exists_of_ready {vs : List UInt32} {position : Nat} {cell : Cell}
    (hcell : (vs.flatMap codeCells)[position]? = some cell) (hready : cell.ready = true) :
    ∃ us v ws, vs = us ++ v :: ws ∧ position = (us.flatMap codeCells).length := by
  induction vs generalizing position with
  | nil => simp at hcell
  | cons v vs ih =>
      rw [List.flatMap_cons] at hcell
      by_cases hlt : position < (codeCells v).length
      · rw [List.getElem?_append_left hlt] at hcell
        obtain ⟨byte, bytes, -, hcode⟩ := codeCells_eq v
        cases position with
        | zero => exact ⟨[], v, vs, rfl, rfl⟩
        | succ position =>
            rw [hcode, List.getElem?_cons_succ, List.getElem?_map] at hcell
            obtain ⟨_, -, rfl⟩ := Option.map_eq_some_iff.mp hcell
            simp at hready
      · have hle := Nat.le_of_not_lt hlt
        rw [List.getElem?_append_right hle] at hcell
        obtain ⟨us, w, ws, rfl, hposition⟩ := ih hcell
        refine ⟨v :: us, w, ws, rfl, ?_⟩
        rw [List.flatMap_cons, List.length_append]
        omega

/-- A ready mark stands at the first byte of a code, and decoding there gives the word. -/
theorem Holds.decode?_of_ready {n : PackedNode} {vs : List UInt32} (h : n.Holds vs) {position : Nat}
    {cell : Cell} (hcell : n.cells[position]? = some cell) (hready : cell.ready = true) :
    (decode? (n.window position n.capacity)).isSome := by
  rw [← Array.getElem?_toList, h.cells_eq] at hcell
  obtain ⟨us, v, ws, rfl, rfl⟩ := exists_of_ready hcell hready
  have hcells : n.cells.toList = us.flatMap codeCells ++ codeCells v ++ ws.flatMap codeCells := by
    simpa using h.cells_eq
  have hstop : (us.flatMap codeCells).length + (encode v).length ≤ n.capacity := by
    have hlength := congrArg List.length hcells
    have hsize := h.size_le
    simp only [Array.length_toList, List.length_append, length_codeCells] at hlength
    omega
  rw [decode?_window hcells hstop, Option.isSome_some]

end PackedNode

end GrowArena
