import GrowArena.Proofs.Leb128.Stream

/-!
What a reader makes of any bytes, be they written by an encoder or not. It reads up to the first
byte that announces no other, and no further; the payloads up to there are the digits of a number to
base 128, of which the word keeps what 32 bits can hold. If none of the bytes that it looks at is
such a last byte, there is no word.
-/

namespace GrowArena.Leb128

theorem number_lt (bytes : List UInt8) : number bytes < 128 ^ bytes.length := by
  have hdigits : ∀ d ∈ bytes.map (·.toNat % 128), d < 128 := by
    intro d hd
    obtain ⟨byte, -, rfl⟩ := List.mem_map.mp hd
    exact Nat.mod_lt _ (by decide)
  simpa [number] using Nat.ofDigits_lt_base_pow_length (by decide) hdigits

theorem number_eq_sum (bytes : List UInt8) :
    number bytes = (bytes.mapIdx fun i byte => byte.toNat % 128 * 128 ^ i).sum := by
  rw [number, Nat.ofDigits_eq_sum_mapIdx]
  congr 1
  apply List.ext_getElem
  · simp
  · intro i hi hi'
    simp

/-- Reading on through bytes that all announce another. -/
theorem scanFrom_announcing {bytes : List UInt8} {i : Nat} (hi : i ≤ maxWidth)
    (h : ∀ byte ∈ bytes.take (maxWidth - i), byte &&& continuation ≠ 0) (groups : UInt32) :
    scanFrom groups i bytes = { value := none, taken := min maxWidth (i + bytes.length) } := by
  induction bytes generalizing groups i with
  | nil => simp [scanFrom, Nat.min_eq_right hi]
  | cons byte bytes ih =>
      rw [scanFrom]
      split
      · rename_i hlt
        obtain ⟨left, hleft⟩ : ∃ left, maxWidth - i = left + 1 := ⟨maxWidth - i - 1, by omega⟩
        have hrest : maxWidth - (i + 1) = left := by omega
        rw [hleft, List.take_succ_cons] at h
        rw [if_neg (h byte List.mem_cons_self), ih hlt]
        · simp only [List.length_cons]
          congr 1
          omega
        · rw [hrest]
          exact fun b hb => h b (List.mem_cons_of_mem _ hb)
      · congr 1
        omega

/-- Among the bytes that a reader looks at there is a first last byte, or none. -/
theorem exists_last_or_announcing (bytes : List UInt8) :
    (∃ announcing last rest, bytes = announcing ++ last :: rest ∧ announcing.length < maxWidth ∧
      (∀ byte ∈ announcing, byte &&& continuation ≠ 0) ∧ last &&& continuation = 0) ∨
    ∀ byte ∈ bytes.take maxWidth, byte &&& continuation ≠ 0 := by
  cases hfind : (bytes.take maxWidth).find? (· &&& continuation = 0) with
  | none => exact .inr fun byte hbyte => by simpa using List.find?_eq_none.mp hfind byte hbyte
  | some last =>
      obtain ⟨hlast, announcing, rest, htake, hannouncing⟩ :=
        List.find?_eq_some_iff_append.mp hfind
      have hlength := congrArg List.length htake
      simp only [List.length_take, List.length_append, List.length_cons] at hlength
      refine .inl ⟨announcing, last, rest ++ bytes.drop maxWidth, ?_, by omega, ?_, ?_⟩
      · rw [← List.cons_append, ← List.append_assoc, ← htake, List.take_append_drop]
      · exact fun byte hbyte => by simpa using hannouncing byte hbyte
      · simpa using hlast

theorem scan_announcing {bytes : List UInt8}
    (h : ∀ byte ∈ bytes.take maxWidth, byte &&& continuation ≠ 0) :
    scan bytes = { value := none, taken := min maxWidth bytes.length } := by
  simpa [scan] using scanFrom_announcing (Nat.zero_le _) h 0

/-- What is read as a word is a run of bytes that announce one another, and a last byte. -/
theorem decode?_eq_some_iff {bytes : List UInt8} {v : UInt32} {w : Nat} :
    decode? bytes = some (v, w) ↔
      ∃ announcing last rest, bytes = announcing ++ last :: rest ∧
        announcing.length < maxWidth ∧ (∀ byte ∈ announcing, byte &&& continuation ≠ 0) ∧
          last &&& continuation = 0 ∧ v = UInt32.ofNat (number (announcing ++ [last])) ∧
            w = announcing.length + 1 := by
  constructor
  · intro hdecode
    rcases exists_last_or_announcing bytes with ⟨announcing, last, rest, rfl, hlength, hall, hlast⟩
      | hall
    · rw [decode?_announcing_last hall hlast hlength] at hdecode
      obtain ⟨rfl, rfl⟩ := Prod.mk.inj (Option.some.inj hdecode)
      exact ⟨announcing, last, rest, rfl, hlength, hall, hlast, rfl, rfl⟩
    · simp [decode?, scan_announcing hall] at hdecode
  · rintro ⟨announcing, last, rest, rfl, hlength, hall, hlast, rfl, rfl⟩
    exact decode?_announcing_last hall hlast hlength rest

theorem decode?_eq_none_iff {bytes : List UInt8} :
    decode? bytes = none ↔ ∀ byte ∈ bytes.take maxWidth, byte &&& continuation ≠ 0 := by
  constructor
  · intro hdecode
    rcases exists_last_or_announcing bytes with ⟨announcing, last, rest, rfl, hlength, hall, hlast⟩
      | hall
    · simp [decode?_announcing_last hall hlast hlength] at hdecode
    · exact hall
  · intro hall
    simp [decode?, scan_announcing hall]

/-- The sequence begins with `w` bytes that are read as `v`, the last of them being the first that
announces no other. No byte behind them is looked at. -/
structure Accepts (bytes : List UInt8) (v : UInt32) (w : Nat) : Prop where
  pos : 0 < w
  le : w ≤ maxWidth
  announcing : ∀ i, i + 1 < w → ∃ byte, bytes[i]? = some byte ∧ byte &&& continuation ≠ 0
  last : ∃ byte, bytes[w - 1]? = some byte ∧ byte &&& continuation = 0
  value_eq : v.toNat =
    ((bytes.take w).mapIdx fun i byte => byte.toNat % 128 * 128 ^ i).sum % 2 ^ 32
  taken_eq : (scan bytes).taken = w
  scan_take : ∀ more, scan (bytes.take w ++ more) = scan bytes

/-- No byte that is looked at is a last byte. -/
structure Rejects (bytes : List UInt8) : Prop where
  announcing : ∀ byte ∈ bytes.take maxWidth, byte &&& continuation ≠ 0
  taken_eq : (scan bytes).taken = min maxWidth bytes.length

theorem accepts_of_decode? {bytes : List UInt8} {v : UInt32} {w : Nat}
    (h : decode? bytes = some (v, w)) : Accepts bytes v w := by
  obtain ⟨announcing, last, rest, rfl, hlength, hall, hlast, rfl, rfl⟩ := decode?_eq_some_iff.mp h
  have htake : (announcing ++ last :: rest).take (announcing.length + 1) =
      announcing ++ [last] := by
    rw [List.take_length_add_append]
    rfl
  have hscan := scan_announcing_last hall hlast hlength
  refine ⟨Nat.succ_pos _, hlength, ?_, ⟨last, by simp, hlast⟩, ?_, by rw [hscan], ?_⟩
  · intro i hi
    have hi' : i < announcing.length := by omega
    refine ⟨announcing[i], ?_, hall _ (List.getElem_mem hi')⟩
    rw [List.getElem?_append_left hi', List.getElem?_eq_getElem hi']
  · rw [htake, ← number_eq_sum, UInt32.toNat_ofNat']
  · intro more
    rw [htake, List.append_assoc, List.singleton_append, hscan, hscan]

theorem Accepts.decode? {bytes : List UInt8} {v : UInt32} {w : Nat} (h : Accepts bytes v w) :
    decode? bytes = some (v, w) := by
  obtain ⟨byte, hbyte, hlast⟩ := h.last
  cases hdecode : Leb128.decode? bytes with
  | none =>
      have hmem : byte ∈ bytes.take maxWidth := by
        apply List.mem_of_getElem? (i := w - 1)
        have := h.pos
        have := h.le
        rw [List.getElem?_take, if_pos (by omega), hbyte]
      exact absurd hlast (decode?_eq_none_iff.mp hdecode byte hmem)
  | some found =>
      have hfound := accepts_of_decode? (v := found.1) (w := found.2) hdecode
      have hwidth : found.2 = w := hfound.taken_eq.symm.trans h.taken_eq
      have hvalue : found.1 = v := by
        rw [← UInt32.toNat_inj, hfound.value_eq, h.value_eq, hwidth]
      rw [← hvalue, ← hwidth]

theorem decode?_iff_accepts {bytes : List UInt8} {v : UInt32} {w : Nat} :
    decode? bytes = some (v, w) ↔ Accepts bytes v w :=
  ⟨accepts_of_decode?, Accepts.decode?⟩

theorem decode?_eq_none_iff_rejects {bytes : List UInt8} :
    decode? bytes = none ↔ Rejects bytes := by
  rw [decode?_eq_none_iff]
  exact ⟨fun hall => ⟨hall, by rw [scan_announcing hall]⟩, Rejects.announcing⟩

/-- Reading word after word from the front, until there is none, finds these words and leaves this
rest. -/
inductive ReadsOff : List UInt8 → List (UInt32 × Nat) → List UInt8 → Prop
  | stop {bytes : List UInt8} (h : decode? bytes = none) : ReadsOff bytes [] bytes
  | word {bytes : List UInt8} {v : UInt32} {w : Nat} {words : List (UInt32 × Nat)}
      {rest : List UInt8} (h : decode? bytes = some (v, w))
      (later : ReadsOff (bytes.drop w) words rest) : ReadsOff bytes ((v, w) :: words) rest

theorem readsOff_decodeAll (bytes : List UInt8) :
    ReadsOff bytes (decodeAll bytes).words (decodeAll bytes).rest := by
  fun_induction decodeAll bytes with
  | case1 bytes h => exact .stop h
  | case2 bytes v w h later ih => exact .word h ih

theorem ReadsOff.split {bytes rest : List UInt8} {words : List (UInt32 × Nat)}
    (h : ReadsOff bytes words rest) :
    (words.map Prod.snd).sum + rest.length = bytes.length ∧
      bytes.drop (words.map Prod.snd).sum = rest ∧ Rejects rest := by
  induction h with
  | stop h => exact ⟨Nat.zero_add _, rfl, decode?_eq_none_iff_rejects.mp h⟩
  | word h later ih =>
      obtain ⟨hlength, hdrop, hrejects⟩ := ih
      have hwidth := (width_of_decode? h).2
      rw [List.drop_drop] at hdrop
      rw [List.length_drop] at hlength
      rw [List.map_cons, List.sum_cons]
      exact ⟨by omega, hdrop, hrejects⟩

/-- A reader accepts exactly the sequences that have a last byte among those it looks at, and takes
no byte behind that. Word after word, it comes to an end of every sequence: the widths of the words
add up to the bytes before the rest, and the rest has no word at its front. -/
theorem reading_follows_grammar (bytes : List UInt8) :
    ((decode? bytes).isSome ↔ ∃ byte ∈ bytes.take maxWidth, byte &&& continuation = 0) ∧
    (∀ v w, decode? bytes = some (v, w) ↔ Accepts bytes v w) ∧
    (decode? bytes = none ↔ Rejects bytes) ∧
    let stream := decodeAll bytes
    let consumed := (stream.words.map Prod.snd).sum
    ReadsOff bytes stream.words stream.rest ∧ consumed + stream.rest.length = bytes.length ∧
      bytes.take consumed ++ stream.rest = bytes ∧ Rejects stream.rest := by
  have hstream := readsOff_decodeAll bytes
  obtain ⟨hlength, hdrop, hrejects⟩ := hstream.split
  refine ⟨?_, fun v w => decode?_iff_accepts, decode?_eq_none_iff_rejects, hstream, hlength, ?_,
    hrejects⟩
  · have hnone : ¬ decode? bytes = none ↔ _ := not_congr decode?_eq_none_iff
    rw [← ne_eq, Option.ne_none_iff_isSome] at hnone
    rw [hnone]
    push Not
    rfl
  · rw [← hdrop, List.take_append_drop]

example : decode? [0xFF, 0xFF, 0xFF, 0xFF, 0x7F, 0x01] = some (0xFFFFFFFF, 5) := by decide +kernel

end GrowArena.Leb128
