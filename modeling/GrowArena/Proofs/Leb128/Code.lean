import GrowArena.Leb128
import Mathlib.Data.Nat.Digits.Lemmas
import Mathlib.Tactic.Ring

/-!
Writing and reading base-128 codes. The bit operations on bytes and words are division, remainder
and addition of numbers, and bytes up to a first last one are read as the number whose digits they
carry. From that the width of a code is the one read off the word's range, and reading the code of a
word gives the word back, whatever bytes follow.
-/

namespace GrowArena.Leb128

theorem toNat_and_payload (b : UInt8) : (b &&& payload).toNat = b.toNat % 128 := by
  rw [UInt8.toNat_and]
  exact Nat.and_two_pow_sub_one_eq_mod b.toNat 7

theorem and_continuation_eq_zero_iff (b : UInt8) : b &&& continuation = 0 ↔ b.toNat < 128 := by
  have hbits : ∀ i : Fin 256, i.val &&& 128 = 0 ↔ i.val < 128 := by decide +kernel
  rw [← UInt8.toNat_inj, UInt8.toNat_and]
  exact hbits ⟨b.toNat, b.toNat_lt⟩

/-- A byte that announces another carries the low seven bits of the word. -/
theorem toNat_announcing (v : UInt32) :
    ((v.toUInt8 &&& payload) ||| continuation).toNat = v.toNat % 128 + 128 := by
  have hbits : ∀ i : Fin 128, i.val ||| 128 = i.val + 128 := by decide +kernel
  rw [UInt8.toNat_or, toNat_and_payload, UInt32.toNat_toUInt8]
  have hlow : v.toNat % 2 ^ 8 % 128 = v.toNat % 128 := by omega
  rw [hlow]
  exact hbits ⟨v.toNat % 128, Nat.mod_lt _ (by decide)⟩

theorem toNat_toUInt8_of_le {v : UInt32} (h : ¬ payload.toUInt32 < v) :
    v.toUInt8.toNat = v.toNat := by
  have hle : v.toNat ≤ 127 := Nat.le_of_not_lt h
  rw [UInt32.toNat_toUInt8]
  omega

theorem toNat_shiftRight_seven (v : UInt32) : (v >>> 7).toNat = v.toNat / 128 := by
  rw [UInt32.toNat_shiftRight]
  simp [Nat.shiftRight_eq_div_pow]

/-- A number below `2 ^ p` and the bits from place `p` up to 32 do not touch. -/
theorem or_shiftLeft_mod {g p : Nat} (hg : g < 2 ^ p) (hp : p ≤ 32) (x : Nat) :
    g ||| (x <<< p) % 2 ^ 32 = (g + x * 2 ^ p) % 2 ^ 32 := by
  have hword : 2 ^ 32 = 2 ^ (32 - p) * 2 ^ p := by
    rw [← Nat.pow_add, Nat.sub_add_cancel hp]
  have hkept : (x <<< p) % 2 ^ 32 = (x % 2 ^ (32 - p)) <<< p := by
    rw [Nat.shiftLeft_eq, Nat.shiftLeft_eq, hword, Nat.mul_mod_mul_right]
  have hsum : g + (x % 2 ^ (32 - p)) * 2 ^ p < 2 ^ 32 := by
    have hlt : x % 2 ^ (32 - p) < 2 ^ (32 - p) := Nat.mod_lt _ (Nat.two_pow_pos _)
    have := Nat.mul_le_mul_right (2 ^ p) hlt
    rw [hword]
    rw [Nat.succ_mul] at this
    omega
  rw [hkept, Nat.or_comm, ← Nat.shiftLeft_add_eq_or_of_lt hg, Nat.shiftLeft_eq, Nat.add_comm,
    ← Nat.mod_eq_of_lt hsum]
  have hmod : x % 2 ^ (32 - p) * 2 ^ p = x * 2 ^ p % 2 ^ 32 := by
    rw [hword, Nat.mul_mod_mul_right]
  rw [hmod, Nat.add_mod_mod]

/-- Taking in a further group is addition; only the fifth group can lose bits. -/
theorem toNat_accumulate {groups : UInt32} {i : Nat} (hi : i < maxWidth)
    (hgroups : groups.toNat < 128 ^ i) (b : UInt8) :
    (accumulate groups i b).toNat = (groups.toNat + b.toNat % 128 * 128 ^ i) % 2 ^ 32 := by
  have hpow : 128 ^ i = 2 ^ (7 * i) := by rw [Nat.pow_mul]
  have hplace : (7 * i).toUInt32.toNat % 32 = 7 * i := by
    simp only [maxWidth] at hi
    simp only [Nat.toUInt32, UInt32.toNat_ofNat']
    omega
  rw [hpow] at hgroups ⊢
  rw [accumulate, UInt32.toNat_or, UInt32.toNat_shiftLeft, hplace, UInt8.toNat_toUInt32,
    toNat_and_payload]
  simp only [maxWidth] at hi
  exact or_shiftLeft_mod hgroups (by omega) _

/-- The number whose digits to base 128, least significant first, are the payloads of the bytes. -/
def number (bytes : List UInt8) : Nat := Nat.ofDigits 128 (bytes.map (·.toNat % 128))

theorem number_cons (byte : UInt8) (bytes : List UInt8) :
    number (byte :: bytes) = byte.toNat % 128 + 128 * number bytes := by
  simp [number, Nat.ofDigits_cons]

/-- Before the fifth group no bit is lost. -/
theorem toNat_accumulate_of_lt {groups : UInt32} {i : Nat} (hi : i + 1 < maxWidth)
    (hgroups : groups.toNat < 128 ^ i) (b : UInt8) :
    (accumulate groups i b).toNat = groups.toNat + b.toNat % 128 * 128 ^ i ∧
      (accumulate groups i b).toNat < 128 ^ (i + 1) := by
  have hsum : groups.toNat + b.toNat % 128 * 128 ^ i < 128 ^ (i + 1) := by
    have hlow : b.toNat % 128 < 128 := Nat.mod_lt _ (by decide)
    have := Nat.mul_le_mul_right (128 ^ i) (Nat.le_of_lt_succ hlow)
    rw [Nat.pow_succ]
    omega
  have hfour : 128 ^ (i + 1) ≤ 128 ^ 4 := Nat.pow_le_pow_right (by decide) (Nat.le_of_lt_succ hi)
  rw [toNat_accumulate (Nat.lt_of_succ_lt hi) hgroups, Nat.mod_eq_of_lt (by omega)]
  exact ⟨rfl, hsum⟩

/-- Reading on through bytes that announce one another to a last byte. -/
theorem scanFrom_announcing_last {announcing : List UInt8} {last : UInt8}
    (hannouncing : ∀ byte ∈ announcing, byte &&& continuation ≠ 0)
    (hlast : last &&& continuation = 0) (rest : List UInt8) (groups : UInt32) (i : Nat)
    (hi : i + announcing.length < maxWidth) (hgroups : groups.toNat < 128 ^ i) :
    scanFrom groups i (announcing ++ last :: rest) =
      { value := some (UInt32.ofNat (groups.toNat + 128 ^ i * number (announcing ++ [last])))
        taken := i + announcing.length + 1 } := by
  induction announcing generalizing groups i with
  | nil =>
      simp only [List.length_nil, Nat.add_zero] at hi
      have hvalue : accumulate groups i last =
          UInt32.ofNat (groups.toNat + 128 ^ i * number [last]) := by
        rw [← UInt32.toNat_inj, toNat_accumulate hi hgroups, UInt32.toNat_ofNat']
        simp [number, Nat.mul_comm]
      simp [scanFrom, hi, hlast, hvalue]
  | cons byte announcing ih =>
      simp only [List.length_cons] at hi
      obtain ⟨hvalue, hnext⟩ := toNat_accumulate_of_lt (by omega) hgroups byte
      have hsplit : 128 ^ i * number (byte :: (announcing ++ [last])) =
          byte.toNat % 128 * 128 ^ i + 128 ^ (i + 1) * number (announcing ++ [last]) := by
        rw [number_cons]
        ring
      rw [List.cons_append, scanFrom, if_pos (by omega),
        if_neg (hannouncing byte List.mem_cons_self),
        ih (fun b hb => hannouncing b (List.mem_cons_of_mem _ hb)) _ _ (by omega) hnext, hvalue,
        List.cons_append, hsplit, Nat.add_assoc]
      simp only [List.length_cons]
      congr 1
      omega

section

variable {announcing : List UInt8} {last : UInt8}
  (hannouncing : ∀ byte ∈ announcing, byte &&& continuation ≠ 0)
  (hlast : last &&& continuation = 0) (hlength : announcing.length < maxWidth)

include hannouncing hlast hlength

theorem scan_announcing_last (rest : List UInt8) :
    scan (announcing ++ last :: rest) =
      { value := some (UInt32.ofNat (number (announcing ++ [last])))
        taken := announcing.length + 1 } := by
  have hscan := scanFrom_announcing_last hannouncing hlast rest 0 0 (by omega) (by decide)
  simpa [scan] using hscan

theorem decode?_announcing_last (rest : List UInt8) :
    decode? (announcing ++ last :: rest) =
      some (UInt32.ofNat (number (announcing ++ [last])), announcing.length + 1) := by
  simp [decode?, scan_announcing_last hannouncing hlast hlength]

end

/-- A word of more than seven bits takes one byte more than the word of its higher groups. -/
theorem width_of_lt {v : UInt32} (h : payload.toUInt32 < v) : width v = width (v >>> 7) + 1 := by
  have hlarge : 127 < v.toNat := h
  have hlt := v.toNat_lt
  have hshift := toNat_shiftRight_seven v
  simp only [width, UInt32.le_iff_toNat_le, hshift, UInt32.reduceToNat]
  split_ifs <;> omega

/-- The code of a word has the width of the word's range. -/
theorem length_encode (v : UInt32) : (encode v).length = width v := by
  fun_induction encode v with
  | case1 v h ih => rw [List.length_cons, ih, width_of_lt h]
  | case2 v h =>
      have hsmall : v ≤ 0x7F := UInt32.not_lt.mp h
      simp [width, hsmall]

theorem width_pos (v : UInt32) : 0 < width v := by
  unfold width
  split_ifs <;> decide

theorem width_le (v : UInt32) : width v ≤ maxWidth := by
  unfold width
  split_ifs <;> decide

/-- The groups of a code are the digits of its word. -/
theorem number_encode (v : UInt32) : number (encode v) = v.toNat := by
  fun_induction encode v with
  | case1 v h ih =>
      rw [number_cons, ih, toNat_announcing, toNat_shiftRight_seven]
      omega
  | case2 v h =>
      have hsmall : v.toNat < 128 := Nat.lt_of_not_le h
      simp only [number, List.map_cons, List.map_nil, Nat.ofDigits_singleton,
        toNat_toUInt8_of_le h]
      omega

/-- The code of a word is read as any other sequence: it ends in its only last byte. -/
theorem exists_encode_eq (v : UInt32) :
    ∃ announcing last, encode v = announcing ++ [last] ∧ announcing.length < maxWidth ∧
      (∀ byte ∈ announcing, byte &&& continuation ≠ 0) ∧ last &&& continuation = 0 := by
  have hshape : ∃ announcing last, encode v = announcing ++ [last] ∧
      (∀ byte ∈ announcing, byte &&& continuation ≠ 0) ∧ last &&& continuation = 0 := by
    fun_induction encode v with
    | case1 v h ih =>
        obtain ⟨announcing, last, hcode, hall, hlast⟩ := ih
        refine ⟨_ :: announcing, last, by rw [hcode, List.cons_append], ?_, hlast⟩
        refine List.forall_mem_cons.mpr ⟨?_, hall⟩
        rw [ne_eq, and_continuation_eq_zero_iff, toNat_announcing]
        omega
    | case2 v h =>
        refine ⟨[], v.toUInt8, rfl, by simp, ?_⟩
        rw [and_continuation_eq_zero_iff, toNat_toUInt8_of_le h]
        exact Nat.lt_of_not_le h
  obtain ⟨announcing, last, hcode, hall, hlast⟩ := hshape
  refine ⟨announcing, last, hcode, ?_, hall, hlast⟩
  have hlength := congrArg List.length hcode
  rw [length_encode, List.length_append, List.length_singleton] at hlength
  have hwidth := width_le v
  omega

/-- The code of a word reads as the word, whatever bytes follow. -/
theorem scan_encode_append (v : UInt32) (rest : List UInt8) :
    scan (encode v ++ rest) = { value := some v, taken := (encode v).length } := by
  obtain ⟨announcing, last, hcode, hlength, hall, hlast⟩ := exists_encode_eq v
  have hvalue : UInt32.ofNat (number (announcing ++ [last])) = v := by
    rw [← hcode, number_encode, UInt32.ofNat_toNat]
  rw [hcode, List.append_assoc, List.singleton_append,
    scan_announcing_last hall hlast hlength, hvalue, List.length_append, List.length_singleton]

theorem decode?_encode_append (v : UInt32) (rest : List UInt8) :
    decode? (encode v ++ rest) = some (v, (encode v).length) := by
  simp [decode?, scan_encode_append]

end GrowArena.Leb128
