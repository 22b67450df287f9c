import GrowArena.Proofs.Packed.Contents

/-!
Looking at a packed array. A reader from the front, the count of published bytes and the bytes
themselves all agree with one list of words, and nowhere does a decoder find less than a word: not
at a ready mark, where publication decodes, and not at any place that a reader comes to.
-/

namespace GrowArena

open Leb128

namespace PackedNode

/-- The node shows these words, and its published bytes are their codes, end to end. -/
structure Codes (n : PackedNode) (vs : List UInt32) : Prop where
  shows : Segment.Shows n vs
  bytes_eq : (List.range n.published).map n.byteAt = vs.flatMap encode

/-- Publication, which decodes at ready marks, finds a word at every one of them. As it changes
neither marks nor bytes, after a push this speaks of the scan that the push has made. -/
def ReadyDecodes (n : PackedNode) : Prop :=
  ∀ (position : Nat) (cell : Cell), n.cells[position]? = some cell → cell.ready = true →
    (decode? (n.window position n.capacity)).isSome

theorem Holds.codes {n : PackedNode} {vs : List UInt32} (h : n.Holds vs) : n.Codes vs where
  shows := h.shows
  bytes_eq := by
    have hbytes : (List.range n.published).map n.byteAt = n.cells.toList.map Cell.byte := by
      rw [h.published_eq]
      apply List.ext_getElem
      · simp
      · intro i hi hi'
        have hlt : i < n.cells.size := by simpa using hi
        simp [byteAt, hlt]
    rw [hbytes, h.cells_eq, map_byte_flatMap_codeCells]

theorem Holds.readyDecodes {n : PackedNode} {vs : List UInt32} (h : n.Holds vs) : n.ReadyDecodes :=
  fun _ _ hcell hready => h.decode?_of_ready hcell hready

end PackedNode

namespace PackedArray

/-- All ways of looking at the array agree with one list. -/
structure Represents (a : PackedArray) (l : List UInt32) : Prop where
  /-- A new reader finds the words in turn, and then nothing for good. -/
  yields : a.chain.Yields a.chain.start l
  toList_eq : a.chain.toList = l
  byteSize_eq : a.byteSize = (l.map width).sum
  isEmpty_iff : a.chain.isEmpty = true ↔ l = []
  /-- Each node holds whole words. -/
  codes : ∃ parts, parts.flatten = l ∧
    List.Forall₂ PackedNode.Codes a.chain.nodes.toList parts
  readyDecodes : ∀ n ∈ a.chain.nodes, n.ReadyDecodes

/-- A reader at this place, and at every further place where it looks for the next word, finds a
word wherever bytes are left to it. -/
def DecodesFrom (a : PackedArray) (cursor : Cursor) : Prop :=
  ∀ i position stop, a.chain.Passes cursor (.inside i position stop) →
    ∃ n, a.chain.nodes[i]? = some n ∧
      (position < stop → (decode? (n.window position stop)).isSome)

theorem byteSize_of_holds {a : PackedArray} {parts : List (List UInt32)} (h : a.Holds parts) :
    a.byteSize = (parts.flatten.map width).sum := by
  unfold Holds at h
  unfold byteSize Chain.extent
  generalize a.chain.nodes.toList = nodes at h ⊢
  induction h with
  | nil => rfl
  | cons hnode _ ih =>
      rw [List.foldr_cons, ih, PackedNode.segment_published, hnode.published_eq, hnode.size_eq,
        length_flatMap_encode]
      simp

theorem represents_of_holds {a : PackedArray} {parts : List (List UInt32)} (h : a.Holds parts) :
    a.Represents parts.flatten where
  yields := Chain.yields_start h.shows
  toList_eq := Chain.toList_of_shows h.shows
  byteSize_eq := byteSize_of_holds h
  isEmpty_iff := Chain.isEmpty_iff_of_shows h.shows
  codes := ⟨parts, rfl, List.Forall₂.imp (fun _ _ => PackedNode.Holds.codes) h⟩
  readyDecodes n hn := by
    obtain ⟨i, hi⟩ := List.getElem?_of_mem (Array.mem_toList_iff.mpr hn)
    obtain ⟨vs, -, hnode⟩ := exists_of_forall₂ h hi
    exact hnode.readyDecodes

theorem decodesFrom_of_legible {a : PackedArray} {parts : List (List UInt32)} (h : a.Holds parts)
    {cursor : Cursor} (hcursor : a.chain.Legible cursor) : a.DecodesFrom cursor := by
  intro i position stop hpasses
  obtain ⟨n, us, hn, -, hus⟩ := hcursor.of_passes h.shows hpasses
  refine ⟨n, hn, ?_⟩
  intro hlt
  cases us with
  | nil =>
      have hend : position = stop := hus
      omega
  | cons v vs =>
      obtain ⟨distance, -, hread, -⟩ := hus
      rw [PackedNode.segment_read?, PackedNode.read?, if_pos hlt] at hread
      rw [hread, Option.isSome_some]

end PackedArray

end GrowArena
