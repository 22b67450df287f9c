import GrowArena.Proofs.Leb128.Stream
import Mathlib.Order.Bounds.Basic

/-!
Filling a buffer. Words are written one behind the other until one does not fit. As many are written
as the buffer has room for, their codes stand at its front, and no other byte of it is changed, not
even by the attempt that failed; so the words are read back from the front of the buffer.
-/

namespace GrowArena.Leb128

/-- A buffer after an attempt to write to it from an offset on. -/
def writeAt (v : UInt32) (offset : Nat) (buffer : List UInt8) : Written :=
  let attempt := writeInto v (buffer.drop offset)
  { attempt with bytes := buffer.take offset ++ attempt.bytes }

/-- A buffer after words were written to it, and the widths that the attempts gave, up to the first
that gave none. -/
structure Filled where
  bytes : List UInt8
  widths : List Nat
  deriving DecidableEq, Repr

/-- The words that were written, of those that were to be. -/
def Filled.written (filled : Filled) (words : List UInt32) : List UInt32 :=
  words.take filled.widths.length

/-- Writes the words one behind the other from an offset on, until one does not fit. -/
def fillFrom (offset : Nat) (buffer : List UInt8) : List UInt32 → Filled
  | [] => { bytes := buffer, widths := [] }
  | v :: words =>
      let attempt := writeAt v offset buffer
      match attempt.width with
      | none => { bytes := attempt.bytes, widths := [] }
      | some w =>
          let later := fillFrom (offset + w) attempt.bytes words
          { later with widths := w :: later.widths }

def fill (buffer : List UInt8) (words : List UInt32) : Filled :=
  fillFrom 0 buffer words

theorem writeInto_of_width_le {v : UInt32} {buffer : List UInt8} (h : width v ≤ buffer.length) :
    writeInto v buffer =
      { bytes := encode v ++ buffer.drop (width v), width := some (width v) } := by
  simp only [writeInto, length_encode]
  rw [if_pos h]

theorem writeInto_of_lt_width {v : UInt32} {buffer : List UInt8} (h : buffer.length < width v) :
    writeInto v buffer = { bytes := buffer, width := none } := by
  simp only [writeInto, length_encode]
  rw [if_neg (Nat.not_le.mpr h)]

section

variable {v : UInt32} {done room : List UInt8}

theorem writeAt_of_width_le (h : width v ≤ room.length) :
    writeAt v done.length (done ++ room) =
      { bytes := (done ++ encode v) ++ room.drop (width v), width := some (width v) } := by
  rw [writeAt, List.drop_left, List.take_left, writeInto_of_width_le h, List.append_assoc]

theorem writeAt_of_lt_width (h : room.length < width v) :
    writeAt v done.length (done ++ room) = { bytes := done ++ room, width := none } := by
  rw [writeAt, List.drop_left, List.take_left, writeInto_of_lt_width h]

theorem fillFrom_cons_of_width_le (h : width v ≤ room.length) (words : List UInt32) :
    fillFrom done.length (done ++ room) (v :: words) =
      let later :=
        fillFrom (done ++ encode v).length ((done ++ encode v) ++ room.drop (width v)) words
      { later with widths := width v :: later.widths } := by
  rw [fillFrom, writeAt_of_width_le h, List.length_append, length_encode]

theorem fillFrom_cons_of_lt_width (h : room.length < width v) (words : List UInt32) :
    fillFrom done.length (done ++ room) (v :: words) = { bytes := done ++ room, widths := [] } := by
  rw [fillFrom, writeAt_of_lt_width h]

end

/-- The lengths of the prefixes of `words` whose codes fit into `room` bytes. -/
def fittingLengths (words : List UInt32) (room : Nat) : Set Nat :=
  {k | k ≤ words.length ∧ ((words.take k).map width).sum ≤ room}

theorem zero_mem_fittingLengths (words : List UInt32) (room : Nat) :
    0 ∈ fittingLengths words room := by
  simp [fittingLengths]

theorem succ_mem_fittingLengths_cons {v : UInt32} {words : List UInt32} {room k : Nat}
    (h : width v ≤ room) :
    k + 1 ∈ fittingLengths (v :: words) room ↔ k ∈ fittingLengths words (room - width v) := by
  simp only [fittingLengths, Set.mem_ofPred_eq, List.take_succ_cons, List.map_cons, List.sum_cons,
    List.length_cons]
  omega

theorem eq_zero_of_mem_fittingLengths_cons {v : UInt32} {words : List UInt32} {room k : Nat}
    (h : room < width v) (hk : k ∈ fittingLengths (v :: words) room) : k = 0 := by
  cases k with
  | zero => rfl
  | succ k =>
      have hsum := hk.2
      rw [List.take_succ_cons, List.map_cons, List.sum_cons] at hsum
      omega

/-- What a buffer is filled with behind the bytes that were written before: the longest prefix of
the words that there is room for. -/
structure FilledUp (words : List UInt32) (done room : List UInt8) (filled : Filled) : Prop where
  longest : IsGreatest (fittingLengths words room.length) filled.widths.length
  widths_eq : filled.widths = (filled.written words).map width
  bytes_eq : filled.bytes =
    done ++ (filled.written words).flatMap encode ++ room.drop filled.widths.sum

theorem filledUp_of_lt_width {v : UInt32} {room : List UInt8} (h : room.length < width v)
    (words : List UInt32) (done : List UInt8) :
    FilledUp (v :: words) done room { bytes := done ++ room, widths := [] } where
  longest := ⟨zero_mem_fittingLengths _ _, fun _ hk =>
    Nat.le_of_eq (eq_zero_of_mem_fittingLengths_cons h hk)⟩
  widths_eq := rfl
  bytes_eq := by simp [Filled.written]

theorem FilledUp.cons {v : UInt32} {words : List UInt32} {done room : List UInt8} {filled : Filled}
    (h : width v ≤ room.length)
    (later : FilledUp words (done ++ encode v) (room.drop (width v)) filled) :
    FilledUp (v :: words) done room { filled with widths := width v :: filled.widths } where
  longest := by
    have hlater := later.longest
    rw [List.length_drop] at hlater
    refine ⟨(succ_mem_fittingLengths_cons h).mpr hlater.1, fun k hk => ?_⟩
    cases k with
    | zero => exact Nat.zero_le _
    | succ k => exact Nat.succ_le_succ (hlater.2 ((succ_mem_fittingLengths_cons h).mp hk))
  widths_eq := by
    rw [Filled.written, List.length_cons, List.take_succ_cons, List.map_cons, ← Filled.written,
      ← later.widths_eq]
  bytes_eq := by
    simp only [Filled.written, List.length_cons, List.take_succ_cons, List.flatMap_cons,
      List.sum_cons]
    rw [later.bytes_eq, Filled.written, List.drop_drop, List.append_assoc done]

theorem filledUp_fillFrom (words : List UInt32) (done room : List UInt8) :
    FilledUp words done room (fillFrom done.length (done ++ room) words) := by
  induction words generalizing done room with
  | nil =>
      refine ⟨⟨zero_mem_fittingLengths _ _, fun k hk => hk.1⟩, rfl, ?_⟩
      simp [fillFrom, Filled.written]
  | cons v words ih =>
      rcases Nat.lt_or_ge room.length (width v) with hshort | hfits
      · rw [fillFrom_cons_of_lt_width hshort]
        exact filledUp_of_lt_width hshort words done
      · rw [fillFrom_cons_of_width_le hfits]
        exact (ih (done ++ encode v) (room.drop (width v))).cons hfits

theorem length_flatMap_encode (words : List UInt32) :
    (words.flatMap encode).length = (words.map width).sum := by
  simp only [List.length_flatMap, length_encode]

/-- The word behind those that were written is too wide for what is left. -/
theorem lt_width_of_isGreatest {words : List UInt32} {room n : Nat} {v : UInt32}
    (h : IsGreatest (fittingLengths words room) n) (hv : words[n]? = some v) :
    room - ((words.take n).map width).sum < width v := by
  by_contra hfits
  have hn : n < words.length := (List.getElem?_eq_some_iff.mp hv).1
  have hmore : n + 1 ∈ fittingLengths words room := by
    refine ⟨hn, ?_⟩
    have hroom := h.1.2
    rw [List.take_add_one, hv, Option.toList_some, List.map_append, List.sum_append,
      List.map_singleton, List.sum_singleton]
    omega
  exact absurd (h.2 hmore) (Nat.not_succ_le_self n)

/-- A buffer that was filled from its front, until a word was refused or none was left: as many
words as it has room for are in it, each reported with the width of its range. Their codes come
first and the other bytes are as before, also where the refused word would have been written. Read
from the front, as many words as were written are those words. -/
structure FilledFromFront (words : List UInt32) (buffer : List UInt8) (filled : Filled) : Prop where
  longest : IsGreatest (fittingLengths words buffer.length) filled.widths.length
  widths_eq : filled.widths = (filled.written words).map width
  bytes_eq : filled.bytes = (filled.written words).flatMap encode ++ buffer.drop filled.widths.sum
  length_codes : ((filled.written words).flatMap encode).length = filled.widths.sum
  refused : ∀ v, words[filled.widths.length]? = some v →
    writeAt v filled.widths.sum filled.bytes = { bytes := filled.bytes, width := none }
  reads_back : (decodeAll filled.bytes).words.take filled.widths.length =
    (filled.written words).map fun v => (v, width v)

theorem filling_writes_what_fits (words : List UInt32) (buffer : List UInt8) :
    FilledFromFront words buffer (fill buffer words) := by
  have h : FilledUp words [] buffer (fill buffer words) := filledUp_fillFrom words [] buffer
  generalize fill buffer words = filled at h
  have hbytes : filled.bytes =
      (filled.written words).flatMap encode ++ buffer.drop filled.widths.sum := by
    rw [h.bytes_eq, List.nil_append]
  have hcodes : ((filled.written words).flatMap encode).length = filled.widths.sum := by
    rw [length_flatMap_encode, ← h.widths_eq]
  refine ⟨h.longest, h.widths_eq, hbytes, hcodes, fun v hv => ?_, ?_⟩
  · have hshort : (buffer.drop filled.widths.sum).length < width v := by
      rw [List.length_drop, h.widths_eq]
      exact lt_width_of_isGreatest h.longest hv
    have hrefused : writeAt v ((filled.written words).flatMap encode).length
        ((filled.written words).flatMap encode ++ buffer.drop filled.widths.sum) =
          { bytes := (filled.written words).flatMap encode ++ buffer.drop filled.widths.sum
            width := none } :=
      writeAt_of_lt_width hshort
    rwa [hcodes, ← hbytes] at hrefused
  · have hlength : ((filled.written words).map fun v => (v, width v)).length =
        filled.widths.length := by
      rw [List.length_map, Filled.written, List.length_take, Nat.min_eq_left h.longest.1.1]
    rw [hbytes, decodeAll_flatMap_encode_append, ← hlength, List.take_left]

theorem filling_four_bytes_refuses_third :
    ([300, 5, 70000, 1] : List UInt32)[(fill [9, 9, 9, 9] [300, 5, 70000, 1]).widths.length]? =
        some 70000 ∧
      (fill [9, 9, 9, 9] [300, 5, 70000, 1]).bytes = [0xAC, 0x02, 0x05, 9] ∧
        writeAt 70000 3 [0xAC, 0x02, 0x05, 9] =
          { bytes := [0xAC, 0x02, 0x05, 9], width := none } := by
  have hfilled : fill [9, 9, 9, 9] [300, 5, 70000, 1] =
      { bytes := [0xAC, 0x02, 0x05, 9], widths := [2, 1] } := by decide +kernel
  have hrefused := (filling_writes_what_fits [300, 5, 70000, 1] [9, 9, 9, 9]).refused 70000
  rw [hfilled] at hrefused ⊢
  exact ⟨rfl, rfl, hrefused rfl⟩

end GrowArena.Leb128
