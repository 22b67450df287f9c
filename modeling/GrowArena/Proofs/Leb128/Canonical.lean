import GrowArena.Proofs.Leb128.Grammar

/-!
Which of the sequences that read as a word is its code. A reader also takes groups of zeros on top
of the others, and a fifth group of which it drops what lies beyond the 32nd bit. The code of a word
has neither, and among the sequences that have neither it is the only one that reads as the word.
-/

namespace GrowArena.Leb128

theorem number_append_singleton (bytes : List UInt8) (last : UInt8) :
    number (bytes ++ [last]) = number bytes + 128 ^ bytes.length * (last.toNat % 128) := by
  simp [number, Nat.ofDigits_append]

/-- The width of a word is the number of groups that it takes, by which zero takes one. -/
theorem width_le_iff {v : UInt32} {k : Nat} (hk : 0 < k) : width v ≤ k ↔ v.toNat < 128 ^ k := by
  have hpow : maxWidth ≤ k → 128 ^ maxWidth ≤ 128 ^ k := Nat.pow_le_pow_right (by decide)
  have hlt := v.toNat_lt
  simp only [width, maxWidth, UInt32.le_iff_toNat_le, UInt32.reduceToNat] at hpow ⊢
  rcases Nat.lt_or_ge k 5 with hfew | hmany
  · interval_cases k <;> split_ifs <;> omega
  · have hwide := hpow hmany
    refine ⟨fun _ => by omega, fun _ => ?_⟩
    split_ifs <;> omega

/-- A word that is read takes no more groups than were read. -/
theorem width_ofNat_number_le (code : List UInt8) (h : 0 < code.length) :
    width (UInt32.ofNat (number code)) ≤ code.length := by
  rw [width_le_iff h, UInt32.toNat_ofNat']
  exact Nat.lt_of_le_of_lt (Nat.mod_le _ _) (number_lt code)

/-- Sequences of one length with one last byte each, at their ends, are told apart by the numbers
that they carry. -/
theorem eq_of_number_eq {announcing announcing' : List UInt8} {last last' : UInt8}
    (hall : ∀ byte ∈ announcing, byte &&& continuation ≠ 0)
    (hall' : ∀ byte ∈ announcing', byte &&& continuation ≠ 0)
    (hlast : last &&& continuation = 0) (hlast' : last' &&& continuation = 0)
    (hlength : announcing.length = announcing'.length)
    (hnumber : number (announcing ++ [last]) = number (announcing' ++ [last'])) :
    announcing ++ [last] = announcing' ++ [last'] := by
  induction announcing generalizing announcing' with
  | nil =>
      obtain rfl := List.length_eq_zero_iff.mp hlength.symm
      rw [and_continuation_eq_zero_iff] at hlast hlast'
      simp only [List.nil_append, number, List.map_cons, List.map_nil, Nat.ofDigits_singleton]
        at hnumber
      have hbyte : last = last' := by
        rw [← UInt8.toNat_inj]
        omega
      rw [hbyte]
  | cons byte announcing ih =>
      obtain ⟨byte', announcing', rfl⟩ := List.exists_cons_of_length_eq_add_one hlength.symm
      have hmore := hall byte List.mem_cons_self
      have hmore' := hall' byte' List.mem_cons_self
      rw [ne_eq, and_continuation_eq_zero_iff] at hmore hmore'
      simp only [List.cons_append, number_cons] at hnumber ⊢
      have hbyte : byte = byte' := by
        have := byte.toNat_lt
        have := byte'.toNat_lt
        rw [← UInt8.toNat_inj]
        omega
      rw [hbyte, ih (fun b hb => hall b (List.mem_cons_of_mem _ hb))
        (fun b hb => hall' b (List.mem_cons_of_mem _ hb))
        (Nat.succ.inj hlength) (by omega)]

section

variable {announcing : List UInt8} {last : UInt8} (hlast : last &&& continuation = 0)

include hlast

/-- Only a fifth group has room for bits beyond the 32nd. -/
theorem number_lt_two_pow_iff (hlength : announcing.length < maxWidth) :
    number (announcing ++ [last]) < 2 ^ 32 ↔
      announcing.length + 1 < maxWidth ∨ last ≤ 0x0F := by
  have hlow := number_lt announcing
  rw [and_continuation_eq_zero_iff] at hlast
  rw [number_append_singleton, UInt8.le_iff_toNat_le, Nat.mod_eq_of_lt hlast]
  simp only [maxWidth, UInt8.reduceToNat] at hlength ⊢
  interval_cases announcing.length <;> omega

/-- A group that is not zero on top of the others makes the number too large for fewer groups. -/
theorem pow_le_number_iff :
    128 ^ announcing.length ≤ number (announcing ++ [last]) ↔ last ≠ 0 := by
  have hlow := number_lt announcing
  rw [and_continuation_eq_zero_iff] at hlast
  rw [number_append_singleton, Nat.mod_eq_of_lt hlast, ne_eq, ← UInt8.toNat_inj]
  simp only [UInt8.toNat_zero]
  constructor
  · intro h hzero
    rw [hzero] at h
    omega
  · intro h
    have := Nat.le_mul_of_pos_right (128 ^ announcing.length) (Nat.pos_of_ne_zero h)
    omega

/-- A sequence that is read is the code of its word unless its last group is zero, with others
below, or holds bits that the word has no room for. -/
theorem eq_encode_iff (hall : ∀ byte ∈ announcing, byte &&& continuation ≠ 0)
    (hlength : announcing.length < maxWidth) :
    announcing ++ [last] = encode (UInt32.ofNat (number (announcing ++ [last]))) ↔
      (announcing.length + 1 = 1 ∨ last ≠ 0) ∧
        (announcing.length + 1 < maxWidth ∨ last ≤ 0x0F) := by
  rw [← number_lt_two_pow_iff hlast hlength, ← pow_le_number_iff hlast]
  generalize hword : UInt32.ofNat (number (announcing ++ [last])) = v
  have hvalue : v.toNat = number (announcing ++ [last]) % 2 ^ 32 := by
    rw [← hword, UInt32.toNat_ofNat']
  have hwidth : width v ≤ announcing.length + 1 := by
    rw [← hword]
    simpa using width_ofNat_number_le (announcing ++ [last]) (by simp)
  constructor
  · intro hcode
    have hfits : number (announcing ++ [last]) < 2 ^ 32 := by
      rw [hcode, number_encode]
      exact v.toNat_lt
    rw [Nat.mod_eq_of_lt hfits] at hvalue
    refine ⟨?_, hfits⟩
    by_contra hshort
    push Not at hshort
    have hmore : 0 < announcing.length := by omega
    have hless := (width_le_iff hmore).mpr (hvalue ▸ hshort.2)
    have hsame := congrArg List.length hcode
    rw [List.length_append, List.length_singleton, length_encode] at hsame
    omega
  · rintro ⟨hneeded, hfits⟩
    rw [Nat.mod_eq_of_lt hfits] at hvalue
    have hsame : announcing.length + 1 = width v := by
      refine Nat.le_antisymm ?_ hwidth
      rcases hneeded with hone | hlarge
      · rw [hone]
        exact width_pos v
      · rcases Nat.eq_zero_or_pos announcing.length with hzero | hmore
        · rw [hzero]
          exact width_pos v
        · by_contra hless
          have := (width_le_iff hmore).mp (Nat.le_of_lt_succ (Nat.lt_of_not_le hless))
          omega
    obtain ⟨announcing', last', hcode, -, hall', hlast'⟩ := exists_encode_eq v
    have hlength' := congrArg List.length hcode
    rw [length_encode, List.length_append, List.length_singleton] at hlength'
    rw [hcode]
    refine eq_of_number_eq hall hall' hlast hlast' (by omega) ?_
    rw [← hcode, number_encode, hvalue]

end

/-- The last of the bytes, of which there are others, is a group of zeros. -/
def ZeroPadded (code : List UInt8) : Prop :=
  1 < code.length ∧ code[code.length - 1]? = some 0

/-- The fifth byte has bits beyond the 32nd of the word. -/
def CarriesDiscarded (code : List UInt8) : Prop :=
  code.length = maxWidth ∧ ∃ last, code[code.length - 1]? = some last ∧ 0x0F < last

/-- What is read is never shorter than the code of the word, and it is that code unless its last
byte is a group of zeros on top of others or a fifth byte with bits that are dropped. -/
theorem take_eq_encode_iff {bytes : List UInt8} {v : UInt32} {w : Nat}
    (h : decode? bytes = some (v, w)) :
    width v ≤ w ∧
      (bytes.take w = encode v ↔
        (w = 1 ∨ bytes[w - 1]? ≠ some 0) ∧
          (w < maxWidth ∨ ∃ last, bytes[w - 1]? = some last ∧ last ≤ 0x0F)) := by
  obtain ⟨announcing, last, rest, rfl, hlength, hall, hlast, rfl, rfl⟩ := decode?_eq_some_iff.mp h
  have htake : (announcing ++ last :: rest).take (announcing.length + 1) =
      announcing ++ [last] := by
    rw [List.take_length_add_append]
    rfl
  have hbyte : (announcing ++ last :: rest)[announcing.length + 1 - 1]? = some last := by
    simp
  refine ⟨by simpa using width_ofNat_number_le (announcing ++ [last]) (by simp), ?_⟩
  rw [htake, hbyte, eq_encode_iff hlast hall hlength]
  simp

/-- A whole sequence that is read as a word without losing a bit, as short as the word's range
allows, is the word's code; and the code is such a sequence. -/
theorem eq_encode_iff_shortest {v : UInt32} {code : List UInt8} :
    code = encode v ↔
      decode? code = some (v, code.length) ∧ code.length = width v ∧ number code = v.toNat := by
  constructor
  · rintro rfl
    have hread := decode?_encode_append v []
    rw [List.append_nil] at hread
    exact ⟨hread, length_encode v, number_encode v⟩
  · rintro ⟨hread, hwidth, hvalue⟩
    obtain ⟨announcing, last, hcode, -, hall, hlast⟩ := exists_encode_eq v
    obtain ⟨announcing', last', rest, rfl, -, hall', hlast', -, hlength⟩ :=
      decode?_eq_some_iff.mp hread
    have hrest : rest = [] := by
      rw [List.length_append, List.length_cons] at hlength
      exact List.length_eq_zero_iff.mp (by omega)
    subst hrest
    have hsame := congrArg List.length hcode
    rw [length_encode, ← hwidth] at hsame
    simp only [List.length_append, List.length_singleton] at hsame
    rw [hcode]
    refine eq_of_number_eq hall' hall hlast' hlast (by omega) ?_
    rw [hvalue, ← hcode, number_encode]

/-- No sequence that reads as a word is shorter than its code, and one that is read is the code
unless its last byte is a group of zeros on top of others or a fifth byte with bits that are
dropped. So the code is the only sequence of the least width that reads as the word without a bit
lost, and every other that reads as the word is padded or loses bits. -/
theorem encode_is_unique_shortest :
    (∀ bytes v w, decode? bytes = some (v, w) →
      width v ≤ w ∧
        (bytes.take w = (padded v).take (encode v).length ↔
          (w = 1 ∨ bytes[w - 1]? ≠ some 0) ∧
            (w < maxWidth ∨ ∃ last, bytes[w - 1]? = some last ∧ last ≤ 0x0F))) ∧
    (∀ v, IsLeast {w | ∃ bytes, decode? bytes = some (v, w)} (width v)) ∧
    (∀ v code, code = (padded v).take (encode v).length ↔
      decode? code = some (v, code.length) ∧ code.length = width v ∧ number code = v.toNat) ∧
    ∀ v code, decode? code = some (v, code.length) →
      code ≠ (padded v).take (encode v).length → ZeroPadded code ∨ CarriesDiscarded code := by
  have hcode : ∀ v, (padded v).take (encode v).length = encode v := fun v => by
    rw [length_encode]
    exact (buffered_padded v).code_eq
  simp only [hcode]
  refine ⟨fun bytes v w h => take_eq_encode_iff h, fun v => ⟨?_, ?_⟩,
    fun v code => eq_encode_iff_shortest, ?_⟩
  · refine ⟨encode v, ?_⟩
    simpa [length_encode] using decode?_encode_append v []
  · rintro w ⟨bytes, h⟩
    exact (take_eq_encode_iff h).1
  · intro v code h hother
    obtain ⟨hpos, -⟩ := width_of_decode? h
    have hle := (decode?_iff_accepts.mp h).le
    obtain ⟨last, hlast, -⟩ := (decode?_iff_accepts.mp h).last
    have hcases := (take_eq_encode_iff h).2
    rw [List.take_length, hlast] at hcases
    simp only [hother, false_iff, not_and_or, not_or, Option.some.injEq, exists_eq_left'] at hcases
    rcases hcases with ⟨hlong, hzero⟩ | ⟨hfive, hhigh⟩
    · exact .inl ⟨by omega, by rw [hlast, Decidable.not_not.mp hzero]⟩
    · exact .inr ⟨by omega, last, hlast, UInt8.not_le.mp hhigh⟩

theorem encode_is_unique_shortest_padded_zero :
    decode? [0x80, 0x00] = some (0, 2) ∧ ZeroPadded [0x80, 0x00] ∧
      ¬ CarriesDiscarded [0x80, 0x00] := by
  have hread : decode? [0x80, 0x00] = some (0, 2) := by decide +kernel
  have hother : [0x80, 0x00] ≠ (padded 0).take (encode 0).length := by decide +kernel
  have hfour : ¬ CarriesDiscarded [0x80, 0x00] := fun h => absurd h.1 (by decide)
  refine ⟨hread, ?_, hfour⟩
  exact (encode_is_unique_shortest.2.2.2 0 [0x80, 0x00] hread hother).resolve_right hfour

end GrowArena.Leb128
