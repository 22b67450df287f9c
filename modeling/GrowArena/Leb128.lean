/-!
Base-128 coding of 32-bit words: seven payload bits a byte, least significant group first, with the
high bit set on every byte but the last. `encode` writes a word, `scan` reads the first word of a
byte sequence and counts the bytes it looked at, and `decodeAll` reads word after word.
-/

namespace GrowArena.Leb128

/-- No word takes more bytes than this, and a reader gives up after as many. -/
def maxWidth : Nat := 5

def payload : UInt8 := 0x7F

def continuation : UInt8 := 0x80

/-- The number of bytes that code `v`, read off the range that `v` lies in. -/
def width (v : UInt32) : Nat :=
  if v ≤ 0x7F then 1
  else if v ≤ 0x3FFF then 2
  else if v ≤ 0x1FFFFF then 3
  else if v ≤ 0xFFFFFFF then 4
  else 5

theorem toNat_shiftRight_lt {v : UInt32} (h : payload.toUInt32 < v) :
    (v >>> 7).toNat < v.toNat := by
  have hv : 127 < v.toNat := h
  simp only [UInt32.toNat_shiftRight, UInt32.reduceToNat, Nat.reduceMod, Nat.shiftRight_eq_div_pow]
  omega

def encode (v : UInt32) : List UInt8 :=
  if _h : payload.toUInt32 < v then
    ((v.toUInt8 &&& payload) ||| continuation) :: encode (v >>> 7)
  else
    [v.toUInt8]
termination_by v.toNat
decreasing_by exact toNat_shiftRight_lt _h

/-- The bytes that code `v`, filled up with zeros to the widest code. -/
def padded (v : UInt32) : List UInt8 :=
  encode v ++ List.replicate (maxWidth - (encode v).length) 0

/-- A buffer after an attempt to write to its front; `width` is absent when the code did not fit. -/
structure Written where
  bytes : List UInt8
  width : Option Nat
  deriving DecidableEq, Repr

/-- Overwrites the front of the buffer with the code of `v`, or leaves a buffer that is too short
as it is. -/
def writeInto (v : UInt32) (buffer : List UInt8) : Written :=
  let code := encode v
  if code.length ≤ buffer.length then
    { bytes := code ++ buffer.drop code.length, width := some code.length }
  else
    { bytes := buffer, width := none }

/-- What a reader found at the front of a byte sequence. -/
structure Scan where
  /-- The word, if one of the bytes looked at was a last byte. -/
  value : Option UInt32
  taken : Nat
  deriving DecidableEq, Repr

/-- Adds the payload of the byte at place `i` to the groups read before it. -/
def accumulate (groups : UInt32) (i : Nat) (byte : UInt8) : UInt32 :=
  groups ||| ((byte &&& payload).toUInt32 <<< (7 * i).toUInt32)

/-- Reads on, `taken` bytes having given `groups`. -/
def scanFrom (groups : UInt32) (taken : Nat) : List UInt8 → Scan
  | [] => { value := none, taken }
  | byte :: rest =>
      if taken < maxWidth then
        let groups := accumulate groups taken byte
        if byte &&& continuation = 0 then { value := some groups, taken := taken + 1 }
        else scanFrom groups (taken + 1) rest
      else { value := none, taken }

/-- Looks at bytes from the front up to the first last byte, at most `maxWidth` of them. -/
def scan (bytes : List UInt8) : Scan :=
  scanFrom 0 0 bytes

/-- The first word of the sequence and its width. -/
def decode? (bytes : List UInt8) : Option (UInt32 × Nat) :=
  let found := scan bytes
  found.value.map (·, found.taken)

theorem scanFrom_taken_of_value {groups : UInt32} {taken : Nat} {bytes : List UInt8} {v : UInt32}
    (h : (scanFrom groups taken bytes).value = some v) :
    taken < (scanFrom groups taken bytes).taken ∧
      (scanFrom groups taken bytes).taken ≤ taken + bytes.length := by
  induction bytes generalizing groups taken with
  | nil => simp [scanFrom] at h
  | cons byte rest ih =>
      simp only [scanFrom] at h ⊢
      split at h
      · split at h
        · simp_all
        · rename_i hlt hmore
          obtain ⟨h1, h2⟩ := ih h
          simp only [hlt, hmore, if_true, if_false, List.length_cons]
          omega
      · simp at h

/-- A word takes at least one byte, and none beyond the sequence. -/
theorem width_of_decode? {bytes : List UInt8} {v : UInt32} {w : Nat}
    (h : decode? bytes = some (v, w)) : 0 < w ∧ w ≤ bytes.length := by
  simp only [decode?, scan, Option.map_eq_some_iff, Prod.mk.injEq] at h
  obtain ⟨_, hv, rfl, rfl⟩ := h
  have := scanFrom_taken_of_value hv
  omega

/-- Words read one after the other, with their widths, and the bytes after them. -/
structure Stream where
  words : List (UInt32 × Nat)
  rest : List UInt8
  deriving DecidableEq, Repr

def decodeAll (bytes : List UInt8) : Stream :=
  match _h : decode? bytes with
  | none => { words := [], rest := bytes }
  | some (v, w) =>
      let later := decodeAll (bytes.drop w)
      { later with words := (v, w) :: later.words }
termination_by bytes.length
decreasing_by
  have := width_of_decode? _h
  simp only [List.length_drop]
  omega

end GrowArena.Leb128
