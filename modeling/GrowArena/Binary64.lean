/-!
Binary64 numbers by their bit patterns, and the product of one with a natural number: the number is
rounded to 53 significant bits, so is the product, each time to nearest with ties to even, and the
result is taken down to an integer and clamped to a range. All of it is exact integer arithmetic.
-/

namespace GrowArena

structure Binary64 where
  bits : UInt64
  deriving DecidableEq, Repr

namespace Binary64

inductive Reading where
  | nan
  | infinite (negative : Bool)
  /-- The number `significand * 2 ^ exponent`, or its negative. -/
  | finite (negative : Bool) (significand : Nat) (exponent : Int)
  deriving DecidableEq, Repr

def threeHalves : Binary64 := ⟨0x3FF8000000000000⟩

/-- The bit that the significand of a normal number has before its fraction. -/
def hiddenBit : Nat := 0x10000000000000

def isNegative (x : Binary64) : Bool := x.bits.toNat.testBit 63

def exponentField (x : Binary64) : Nat := (x.bits.toNat >>> 52) % 0x800

def fraction (x : Binary64) : Nat := x.bits.toNat % hiddenBit

/-- An exponent field of zero drops the hidden bit, one of all ones leaves the finite numbers. -/
def reading (x : Binary64) : Reading :=
  if x.exponentField = 0x7FF then
    if x.fraction = 0 then .infinite x.isNegative else .nan
  else if x.exponentField = 0 then
    .finite x.isNegative x.fraction (-1074)
  else
    .finite x.isNegative (hiddenBit + x.fraction) (x.exponentField - 1075)

/-- Equality of numbers: the two zeros agree, and a NaN agrees with nothing. -/
def numEq (x y : Binary64) : Bool :=
  match x.reading, y.reading with
  | .nan, _ | _, .nan => false
  | .finite _ 0 _, .finite _ 0 _ => true
  | _, _ => x.bits == y.bits

/-- The number of low bits of `n` beyond its first 53 significant ones. -/
def excessBits (n : Nat) : Nat := n.log2 - 52

/-- The nearest number with at most 53 significant bits; a tie goes to the even neighbour. -/
def roundSignificant (n : Nat) : Nat :=
  let step := 1 <<< excessBits n
  let below := n / step
  let rest := n % step
  if step < 2 * rest ∨ (step = 2 * rest ∧ below % 2 = 1) then (below + 1) * step
  else below * step

/-- The integer part of `n * 2 ^ exponent`. -/
def floorScaled (n : Nat) : Int → Nat
  | .ofNat e => n <<< e
  | .negSucc e => n >>> (e + 1)

/-- The integer part of `n` times `x`, clamped to the range from 0 to `limit`; 0 where the product
is not a number. The product keeps 53 significant bits whatever its exponent: one too small for
that in binary64 has the integer part 0, and one too large exceeds any limit below 2 ^ 1024. -/
def mulFloor (limit n : Nat) (x : Binary64) : Nat :=
  match x.reading with
  | .nan => 0
  | .infinite negative => if n = 0 ∨ negative then 0 else limit
  | .finite negative significand exponent =>
      if negative then 0
      else min limit (floorScaled (roundSignificant (roundSignificant n * significand)) exponent)

def FiniteAtLeastOne (x : Binary64) : Prop :=
  match x.reading with
  | .finite false significand exponent => 1 ≤ floorScaled significand exponent
  | _ => False

instance (x : Binary64) : Decidable x.FiniteAtLeastOne := by
  unfold FiniteAtLeastOne
  split <;> infer_instance

end Binary64

end GrowArena
