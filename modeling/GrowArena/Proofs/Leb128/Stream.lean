import GrowArena.Proofs.Leb128.Code

/-!
Codes end to end. The code of a word says itself where it ends, so words written one after the other
are read back one after the other, and what follows them reads as it would alone. In particular no
two lists of words have the same codes.
-/

namespace GrowArena.Leb128

theorem decodeAll_of_none {bytes : List UInt8} (h : decode? bytes = none) :
    decodeAll bytes = { words := [], rest := bytes } := by
  rw [decodeAll]
  split <;> simp_all

theorem decodeAll_of_some {bytes : List UInt8} {v : UInt32} {w : Nat}
    (h : decode? bytes = some (v, w)) :
    decodeAll bytes =
      { words := (v, w) :: (decodeAll (bytes.drop w)).words
        rest := (decodeAll (bytes.drop w)).rest } := by
  rw [decodeAll]
  split
  · simp_all
  · rename_i heq
    obtain ⟨rfl, rfl⟩ : v = _ ∧ w = _ := by simpa using h.symm.trans heq
    rfl

/-- Reading takes the code of a word off the front, with the width of the word. -/
theorem decodeAll_encode_append (v : UInt32) (rest : List UInt8) :
    decodeAll (encode v ++ rest) =
      { words := (v, width v) :: (decodeAll rest).words, rest := (decodeAll rest).rest } := by
  rw [decodeAll_of_some (decode?_encode_append v rest), length_encode]
  simp [← length_encode]

/-- Words written one after the other are read back, and then what follows them. -/
theorem decodeAll_flatMap_encode_append (words : List UInt32) (tail : List UInt8) :
    decodeAll (words.flatMap encode ++ tail) =
      { words := (words.map fun v => (v, width v)) ++ (decodeAll tail).words
        rest := (decodeAll tail).rest } := by
  induction words with
  | nil => rfl
  | cons v words ih =>
      rw [List.flatMap_cons, List.append_assoc, decodeAll_encode_append, ih]
      rfl

theorem flatMap_encode_injective : Function.Injective (List.flatMap encode) := by
  intro words words' h
  have hread := congrArg (fun bytes => (decodeAll bytes).words.map Prod.fst) h
  have hwords : ∀ words : List UInt32,
      (decodeAll (words.flatMap encode)).words.map Prod.fst = words := by
    intro words
    have hnil : decodeAll [] = { words := [], rest := [] } := decodeAll_of_none rfl
    have hall := decodeAll_flatMap_encode_append words []
    rw [List.append_nil, hnil, List.append_nil] at hall
    rw [hall, List.map_map]
    exact List.map_id words
  simpa only [hwords] using hread

/-- All bytes of a code but the last announce another. -/
theorem announces_iff {v : UInt32} {i : Nat} {byte : UInt8} (h : (encode v)[i]? = some byte) :
    byte &&& continuation ≠ 0 ↔ i + 1 < (encode v).length := by
  obtain ⟨announcing, last, hcode, -, hall, hlast⟩ := exists_encode_eq v
  rw [hcode] at h ⊢
  rw [List.length_append, List.length_singleton, Nat.add_lt_add_iff_right]
  rcases Nat.lt_or_ge i announcing.length with hlt | hge
  · rw [List.getElem?_append_left hlt] at h
    exact iff_of_true (hall byte (List.mem_of_getElem? h)) hlt
  · rw [List.getElem?_append_right hge] at h
    obtain ⟨-, rfl⟩ : i - announcing.length = 0 ∧ last = byte := by
      simpa [List.getElem?_singleton] using h
    exact iff_of_false (fun hmore => hmore hlast) (Nat.not_lt.mpr hge)

/-- What a buffer has after a word is written to its front: as many bytes as the range of the word
says are its code, of which all but the last announce another, and the other bytes are zero. -/
structure Buffered (v : UInt32) (buffer : List UInt8) : Prop where
  length_eq : buffer.length = maxWidth
  code_eq : buffer.take (width v) = encode v
  announces_iff : ∀ i byte, i < width v → buffer[i]? = some byte →
    (byte &&& continuation ≠ 0 ↔ i + 1 < width v)
  unused_eq : buffer.drop (width v) = List.replicate (maxWidth - width v) 0

theorem buffered_padded (v : UInt32) : Buffered v (padded v) where
  length_eq := by
    have hle := width_le v
    rw [padded, List.length_append, List.length_replicate, length_encode]
    omega
  code_eq := by rw [padded, ← length_encode, List.take_left]
  announces_iff i byte hi hbyte := by
    rw [← length_encode] at hi ⊢
    rw [padded, List.getElem?_append_left hi] at hbyte
    exact Leb128.announces_iff hbyte
  unused_eq := by rw [padded, ← length_encode, List.drop_left]

/-- The code of a word is as long as the range of the word says, and whatever bytes follow it, a
reader finds the word and looks at no byte more. So words written one after the other are read back
with their widths, then what follows them as it would be read alone, and no two lists of words are
written alike. -/
theorem framing_round_trips :
    (∀ v, (encode v).length = width v ∧ Buffered v (padded v)) ∧
    (∀ v rest, decode? ((padded v).take (encode v).length ++ rest) = some (v, width v) ∧
      (scan ((padded v).take (encode v).length ++ rest)).taken = width v) ∧
    (∀ (words : List UInt32) (tail : List UInt8),
      decodeAll (words.flatMap (fun v => (padded v).take (encode v).length) ++ tail) =
        { words := (words.map fun v => (v, width v)) ++ (decodeAll tail).words
          rest := (decodeAll tail).rest }) ∧
    Function.Injective fun words : List UInt32 =>
      words.flatMap fun v => (padded v).take (encode v).length := by
  have hcode : ∀ v, (padded v).take (encode v).length = encode v := fun v => by
    rw [length_encode]
    exact (buffered_padded v).code_eq
  refine ⟨fun v => ⟨length_encode v, buffered_padded v⟩, ?_, ?_, ?_⟩
  · intro v rest
    rw [hcode, decode?_encode_append, scan_encode_append, length_encode]
    exact ⟨rfl, rfl⟩
  · intro words tail
    simp only [hcode]
    exact decodeAll_flatMap_encode_append words tail
  · simp only [hcode]
    exact flatMap_encode_injective

example : decodeAll (padded 300 ++ [0x80]) =
    { words := [(300, 2), (0, 1), (0, 1), (0, 1)], rest := [0x80] } := by
  decide +kernel

end GrowArena.Leb128
