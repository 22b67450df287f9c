import GrowArena.Proofs.Binary64.Rounding
import Mathlib.Algebra.Order.Field.Basic
import Mathlib.Algebra.Order.Ring.Rat
import Mathlib.Tactic.Linarith
import Mathlib.Tactic.Positivity

/-!
The numbers that bit patterns stand for, and rounding to them. The exact number is taken to the
nearest one that has a pattern, from the middle between two to the one whose fraction is even, and
to infinity if it is too large. What has a finite number of bits behind the point is rounded to one
number only, and that is the one with its first 53 bits, rounded.
-/

namespace GrowArena.Binary64

/-- The number that a reading gives, if it gives one. -/
def Reading.number? : Reading → Option ℚ
  | .nan => none
  | .infinite _ => none
  | .finite negative significand exponent =>
      some ((if negative then -1 else 1) * significand * 2 ^ exponent)

def number? (x : Binary64) : Option ℚ := x.reading.number?

def infinity : Binary64 := ⟨0x7FF0000000000000⟩

/-- From here on the next power of two would be as near as any finite number, or nearer. -/
def overflow : ℚ := 2 ^ 1024 - 2 ^ 970

/-- Rounding of numbers that are not negative, to nearest with ties to even. -/
inductive RoundsTo (q : ℚ) : Binary64 → Prop
  | beyond (h : overflow ≤ q) : RoundsTo q infinity
  | nearest {x : Binary64} {v : ℚ} (h : q < overflow) (sign : x.isNegative = false)
      (number : x.number? = some v)
      (least : ∀ (y : Binary64) (w : ℚ), y.number? = some w →
        |v - q| ≤ |w - q| ∧ (|w - q| = |v - q| → w = v ∨ x.fraction % 2 = 0)) : RoundsTo q x

/-- The bits without the sign. -/
def pattern (x : Binary64) : Nat := x.bits.toNat % 2 ^ 63

def ofPattern (p : Nat) : Binary64 := ⟨UInt64.ofNat p⟩

/-- Patterns from this one on stand for no number. -/
def infinitePattern : Nat := 0x7FF * hiddenBit

/-- The place behind the point of the least number above zero. It is irreducible lest its power of
two be computed. -/
@[irreducible] def lastPlace : Nat := 1074

/-- How many times the least number above zero makes one. -/
def unitsInOne : Nat := 2 ^ lastPlace

theorem unitsInOne_pos : 0 < unitsInOne := Nat.two_pow_pos lastPlace

theorem cast_unitsInOne_pos : (0 : ℚ) < unitsInOne := Nat.cast_pos.mpr unitsInOne_pos

theorem pattern_ofPattern {p : Nat} (h : p < infinitePattern) :
    (ofPattern p).pattern = p ∧ (ofPattern p).isNegative = false := by
  have hbits : (UInt64.ofNat p).toNat = p := by
    rw [UInt64.toNat_ofNat']
    unfold infinitePattern hiddenBit at h
    omega
  rw [pattern, isNegative, ofPattern, hbits, Nat.testBit_eq_decide_div_mod_eq,
    decide_eq_false_iff_not]
  unfold infinitePattern hiddenBit at h
  omega

theorem fraction_mod_two (x : Binary64) : x.fraction % 2 = x.pattern % 2 := by
  unfold fraction pattern hiddenBit
  omega

/-- What the fields of a pattern say about its number. -/
theorem reading_cases (x : Binary64) :
    (x.pattern < infinitePattern ∧ ∃ s k : Nat,
      x.reading = .finite x.isNegative s ((k : ℤ) - lastPlace) ∧ units x.pattern = s * 2 ^ k) ∨
    (infinitePattern ≤ x.pattern ∧ (x.reading = .nan ∨ x.reading = .infinite x.isNegative)) := by
  have hexponent : x.exponentField = x.pattern / hiddenBit := by
    rw [exponentField, pattern, Nat.shiftRight_eq_div_pow]
    unfold hiddenBit
    omega
  have hfraction : x.fraction = x.pattern % hiddenBit := by
    unfold fraction pattern hiddenBit
    omega
  have hlimit : x.pattern < 2 ^ 63 := Nat.mod_lt _ (by decide)
  have hsplit := Nat.div_add_mod' x.pattern hiddenBit
  rw [reading, hexponent, hfraction, lastPlace]
  unfold infinitePattern units
  unfold hiddenBit at *
  split
  · rename_i hall
    refine .inr ⟨by omega, ?_⟩
    split
    · exact .inr rfl
    · exact .inl rfl
  · rename_i hfinite
    refine .inl ⟨by omega, ?_⟩
    split
    · rename_i hzero
      exact ⟨_, 0, rfl, by rw [if_pos (by omega)]; omega⟩
    · rename_i hnormal
      refine ⟨_, x.pattern / 0x10000000000000 - 1, ?_, if_neg (by omega)⟩
      congr 1
      omega

/-- A pattern below that of infinity stands for its units, or for their negative. -/
theorem number?_eq_some_iff {x : Binary64} {v : ℚ} :
    x.number? = some v ↔ x.pattern < infinitePattern ∧
      v = (if x.isNegative then -1 else 1) * (units x.pattern / unitsInOne) := by
  rw [number?]
  rcases reading_cases x with ⟨hfinite, s, k, hreading, hunits⟩ | ⟨hinfinite, hreading⟩
  · have hscale : (s : ℚ) * 2 ^ ((k : ℤ) - lastPlace) = units x.pattern / unitsInOne := by
      rw [hunits, unitsInOne, zpow_sub₀ two_ne_zero]
      push_cast
      rw [zpow_natCast, zpow_natCast, mul_div_assoc]
    rw [hreading, Reading.number?, mul_assoc, hscale, Option.some.injEq]
    exact ⟨fun h => ⟨hfinite, h.symm⟩, fun h => h.2.symm⟩
  · refine iff_of_false ?_ fun h => absurd h.1 (Nat.not_lt.mpr hinfinite)
    rcases hreading with hreading | hreading <;> rw [hreading] <;> exact nofun

theorem number?_ofPattern {p : Nat} (h : p < infinitePattern) :
    (ofPattern p).number? = some (units p / unitsInOne : ℚ) := by
  obtain ⟨hpattern, hsign⟩ := pattern_ofPattern h
  rw [number?_eq_some_iff, hpattern, hsign]
  exact ⟨h, (one_mul _).symm⟩

theorem units_div_inj {p p' : Nat} :
    (units p / unitsInOne : ℚ) = units p' / unitsInOne ↔ p = p' := by
  rw [div_left_inj' cast_unitsInOne_pos.ne', Nat.cast_inj, strictMono_units.injective.eq_iff]

/-- The distances of numbers compare as those of their units. -/
theorem abs_units_div_sub (p n : Nat) :
    |(units p / unitsInOne : ℚ) - n / unitsInOne| = (|(units p : ℤ) - n| : ℤ) / unitsInOne := by
  rw [← sub_div, abs_div, abs_of_pos cast_unitsInOne_pos]
  push_cast
  rfl

theorem nearer_iff (n p p' : Nat) :
    (|(units p / unitsInOne : ℚ) - n / unitsInOne| ≤
        |(units p' / unitsInOne : ℚ) - n / unitsInOne| ↔
      |(units p : ℤ) - n| ≤ |(units p' : ℤ) - n|) ∧
    (|(units p' / unitsInOne : ℚ) - n / unitsInOne| =
        |(units p / unitsInOne : ℚ) - n / unitsInOne| ↔
      |(units p' : ℤ) - n| = |(units p : ℤ) - n|) := by
  rw [abs_units_div_sub, abs_units_div_sub, div_le_div_iff_of_pos_right cast_unitsInOne_pos,
    div_left_inj' cast_unitsInOne_pos.ne', Int.cast_le, Int.cast_inj]
  exact ⟨Iff.rfl, Iff.rfl⟩

theorem units_add_units_binade (k : Nat) :
    (units (k * hiddenBit + (2 * hiddenBit - 1)) + units (k * hiddenBit + 2 * hiddenBit) : ℚ) =
      (2 ^ 54 - 1) * 2 ^ k := by
  rw [units_binade (Nat.sub_le _ _) (.inr (by decide)), units_binade le_rfl (.inr (by decide))]
  unfold hiddenBit
  push_cast
  ring

/-- The bound to infinity is the middle between the greatest finite number and the power of two
behind it. -/
theorem two_mul_overflow :
    2 * (overflow * unitsInOne) = (units (infinitePattern - 1) + units infinitePattern : ℚ) := by
  have hlast : infinitePattern - 1 = 2045 * hiddenBit + (2 * hiddenBit - 1) := rfl
  have hinfinite : infinitePattern = 2045 * hiddenBit + 2 * hiddenBit := rfl
  have hplace : lastPlace = 1074 := by rw [lastPlace]
  have hbound : (2 : ℚ) ^ 1024 = 2 ^ 970 * 2 ^ 54 := by rw [← pow_add]
  have hunits : (2 : ℚ) ^ 2045 = 2 ^ 970 * 2 ^ lastPlace * 2 := by
    rw [← pow_add, ← pow_succ, hplace]
  rw [hlast, hinfinite, units_add_units_binade, overflow, unitsInOne, hbound, hunits, Nat.cast_pow]
  generalize (2 : ℚ) ^ 970 = a
  push_cast
  ring

theorem two_pow_le_overflow : 2 ^ 64 ≤ overflow := by
  have hbound : (2 : ℚ) ^ 1024 = 2 ^ 970 * 2 ^ 54 := by rw [← pow_add]
  have hword : (2 : ℚ) ^ 64 ≤ 2 ^ 970 := pow_le_pow_right₀ one_le_two (by decide)
  rw [overflow, hbound]
  generalize (2 : ℚ) ^ 970 = a at hword
  norm_num at hword ⊢
  linarith

theorem div_lt_overflow_iff (n : Nat) :
    (n / unitsInOne : ℚ) < overflow ↔
      2 * n < units (infinitePattern - 1) + units infinitePattern := by
  have hmiddle := two_mul_overflow
  rw [div_lt_iff₀ cast_unitsInOne_pos, ← @Nat.cast_lt ℚ]
  push_cast
  constructor <;> intro h <;> linarith

/-- Below the bound, the nearest pattern is one of a finite number. -/
theorem NearestPattern.lt_infinitePattern {n p : Nat} (h : NearestPattern n p)
    (hn : (n / unitsInOne : ℚ) < overflow) : p < infinitePattern := by
  rw [div_lt_overflow_iff] at hn
  by_contra hbeyond
  have hle := units_le_units.mpr (Nat.not_lt.mp hbeyond)
  have hlt : units (infinitePattern - 1) < units p :=
    Nat.lt_of_lt_of_le (strictMono_units (by decide)) hle
  have hnearer := (abs_sub_le_iff_of_lt (n := n) (Int.ofNat_lt.mpr hlt)).2.mp
    (h (infinitePattern - 1)).1
  omega

/-- Below the bound, it is enough to compare with the finite numbers. -/
theorem nearestPattern_of_finite {n p : Nat} (hn : (n / unitsInOne : ℚ) < overflow)
    (h : ∀ p' < infinitePattern, |(units p : ℤ) - n| ≤ |(units p' : ℤ) - n| ∧
      (|(units p' : ℤ) - n| = |(units p : ℤ) - n| → p' = p ∨ p % 2 = 0)) : NearestPattern n p := by
  rw [div_lt_overflow_iff] at hn
  intro p'
  rcases Nat.lt_or_ge p' infinitePattern with hfinite | hbeyond
  · exact h p' hfinite
  have hlast := (h (infinitePattern - 1) (by decide)).1
  have hle := units_le_units.mpr hbeyond
  have hlt : units (infinitePattern - 1) < units p' :=
    Nat.lt_of_lt_of_le (strictMono_units (by decide)) hle
  have hfarther := mt (abs_sub_le_iff_of_lt (n := n) (Int.ofNat_lt.mpr hlt)).2.mp (by omega)
  omega

theorem roundsTo_ofPattern {n p : Nat} (hn : (n / unitsInOne : ℚ) < overflow)
    (h : NearestPattern n p) : RoundsTo (n / unitsInOne) (ofPattern p) := by
  have hp := h.lt_infinitePattern hn
  obtain ⟨hpattern, hsign⟩ := pattern_ofPattern hp
  refine .nearest hn hsign (number?_ofPattern hp) fun y w hw => ?_
  obtain ⟨-, rfl⟩ := number?_eq_some_iff.mp hw
  rw [fraction_mod_two, hpattern]
  cases hy : y.isNegative with
  | false =>
      rw [if_neg Bool.false_ne_true, one_mul]
      refine ⟨(nearer_iff n p y.pattern).1.mpr (h y.pattern).1, fun heq => ?_⟩
      have htie := (h y.pattern).2 ((nearer_iff n p y.pattern).2.mp heq)
      exact htie.imp_left fun hsame => by rw [hsame]
  | true =>
      -- No negative number is nearer than zero is.
      have hq : (0 : ℚ) ≤ n / unitsInOne := by positivity
      have hw : (0 : ℚ) ≤ units y.pattern / unitsInOne := by positivity
      have hzero : |(units 0 / unitsInOne : ℚ) - n / unitsInOne| = n / unitsInOne := by
        rw [units_zero, Nat.cast_zero, zero_div, zero_sub, abs_neg, abs_of_nonneg hq]
      have hle := (nearer_iff n p 0).1.mpr (h 0).1
      rw [hzero] at hle
      rw [if_pos rfl, neg_one_mul, abs_sub_comm (-_), sub_neg_eq_add,
        abs_of_nonneg (add_nonneg hq hw)]
      refine ⟨by linarith, fun heq => ?_⟩
      have hsame : (units y.pattern / unitsInOne : ℚ) = 0 := by linarith
      have htie := (h 0).2 ((nearer_iff n p 0).2.mp (by rw [hzero, ← heq, hsame, add_zero]))
      refine htie.imp_left fun hp0 => ?_
      rw [hsame, ← hp0, units_zero, Nat.cast_zero, zero_div, neg_zero]

theorem exists_roundsTo (n : Nat) : ∃ x, RoundsTo (n / unitsInOne) x := by
  rcases lt_or_ge (n / unitsInOne : ℚ) overflow with hn | hn
  · obtain ⟨p, hp, -⟩ := exists_nearestPattern n
    exact ⟨_, roundsTo_ofPattern hn hp⟩
  · exact ⟨_, .beyond hn⟩

/-- A number is rounded to infinity, or to the one number that has its first 53 bits, rounded. -/
theorem RoundsTo.cases {n : Nat} {x : Binary64} (h : RoundsTo (n / unitsInOne) x) :
    (overflow ≤ n / unitsInOne ∧ x = infinity) ∨
      (n / unitsInOne < overflow ∧ x.number? = some (roundSignificant n / unitsInOne : ℚ)) := by
  cases h with
  | beyond h => exact .inl ⟨h, rfl⟩
  | nearest h sign number least =>
      refine .inr ⟨h, ?_⟩
      obtain ⟨hfinite, rfl⟩ := number?_eq_some_iff.mp number
      rw [sign, if_neg Bool.false_ne_true, one_mul] at number least
      have hnearest : NearestPattern n x.pattern := by
        refine nearestPattern_of_finite h fun p hp => ?_
        obtain ⟨hle, htie⟩ := least (ofPattern p) _ (number?_ofPattern hp)
        rw [fraction_mod_two] at htie
        refine ⟨(nearer_iff n _ p).1.mp hle, fun heq => ?_⟩
        exact (htie ((nearer_iff n _ p).2.mpr heq)).imp_left units_div_inj.mp
      rw [number, roundSignificant_of_nearest hnearest]

theorem natCast_eq_div (n : Nat) : (n : ℚ) = (n * unitsInOne : Nat) / unitsInOne := by
  rw [Nat.cast_mul, mul_div_cancel_right₀ _ cast_unitsInOne_pos.ne']

/-- A natural number that has a pattern is kept. -/
theorem roundSignificant_of_number? {x : Binary64} {n : Nat} (h : x.number? = some (n : ℚ)) :
    roundSignificant n = n := by
  obtain ⟨-, hvalue⟩ := number?_eq_some_iff.mp h
  cases hx : x.isNegative with
  | true =>
      -- Zero has a negative as well.
      have hn : (n : ℚ) ≤ 0 := by
        have : (0 : ℚ) ≤ units x.pattern / unitsInOne := by positivity
        rw [hvalue, hx, if_pos rfl]
        linarith
      obtain rfl : n = 0 := by exact_mod_cast le_antisymm hn (Nat.cast_nonneg n)
      exact roundSignificant_of_le (Nat.zero_le _)
  | false =>
      rw [hx, if_neg Bool.false_ne_true, one_mul, eq_div_iff cast_unitsInOne_pos.ne'] at hvalue
      have hunits : n * 2 ^ lastPlace = units x.pattern := by exact_mod_cast hvalue
      have hkept := roundSignificant_units x.pattern
      rw [← hunits, roundSignificant_mul_two_pow] at hkept
      exact Nat.eq_of_mul_eq_mul_right (Nat.two_pow_pos lastPlace) hkept

theorem RoundsTo.number?_natCast {n : Nat} {x : Binary64} (h : RoundsTo (n : ℚ) x)
    (hn : (n : ℚ) < overflow) : x.number? = some (roundSignificant n : ℚ) := by
  rw [natCast_eq_div] at h hn
  rcases h.cases with ⟨hbeyond, -⟩ | ⟨-, hnumber⟩
  · exact absurd hn (not_lt.mpr hbeyond)
  · rw [hnumber, unitsInOne, roundSignificant_mul_two_pow, natCast_eq_div (roundSignificant n),
      unitsInOne]

theorem exists_roundsTo_natCast (n : Nat) : ∃ x, RoundsTo (n : ℚ) x := by
  rw [natCast_eq_div]
  exact exists_roundsTo _

end GrowArena.Binary64
