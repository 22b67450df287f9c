import GrowArena.Growth
import GrowArena.Proofs.Binary64.Number
import Mathlib.Algebra.Order.Floor.Semifield
import Mathlib.Data.Rat.Floor

/-!
From one capacity to the next. In units of the least binary64 number, the next capacity comes from a
product of two natural numbers that is rounded to 53 bits, after one of them was. Rounding keeps the
order of numbers and what has a pattern, so capacities do not go backwards; and what is computed is
the product as binary64 has it.
-/

namespace GrowArena

namespace Binary64

theorem floorScaled_sub (n k j : Nat) : floorScaled n ((k : ℤ) - j) = n * 2 ^ k / 2 ^ j := by
  rcases Nat.lt_or_ge k j with h | h
  · have hexponent : (k : ℤ) - j = Int.negSucc (j - k - 1) := by omega
    have hplaces : j - k - 1 + 1 = j - k := by omega
    have hsplit : 2 ^ j = 2 ^ (j - k) * 2 ^ k := by
      rw [← Nat.pow_add, Nat.sub_add_cancel (Nat.le_of_lt h)]
    rw [hexponent, floorScaled, Nat.shiftRight_eq_div_pow, hplaces, hsplit,
      Nat.mul_div_mul_right _ _ (Nat.two_pow_pos k)]
  · have hexponent : (k : ℤ) - j = Int.ofNat (k - j) := by
      rw [Int.ofNat_eq_natCast, Int.natCast_sub h]
    have hsplit : 2 ^ k = 2 ^ (k - j) * 2 ^ j := by rw [← Nat.pow_add, Nat.sub_add_cancel h]
    rw [hexponent, floorScaled, Nat.shiftLeft_eq, hsplit, ← Nat.mul_assoc,
      Nat.mul_div_cancel _ (Nat.two_pow_pos j)]

theorem finiteAtLeastOne_iff (x : Binary64) :
    x.FiniteAtLeastOne ↔ x.isNegative = false ∧ x.pattern < infinitePattern ∧
      unitsInOne ≤ units x.pattern := by
  rw [FiniteAtLeastOne]
  rcases reading_cases x with ⟨hfinite, s, k, hreading, hunits⟩ | ⟨hinfinite, hreading⟩
  · rw [hreading]
    cases x.isNegative with
    | true => simp
    | false =>
        dsimp only
        rw [floorScaled_sub, ← hunits, ← unitsInOne, Nat.le_div_iff_mul_le unitsInOne_pos,
          Nat.one_mul]
        exact ⟨fun h => ⟨rfl, hfinite, h⟩, fun h => h.2.2⟩
  · refine iff_of_false ?_ fun h => absurd h.2.1 (Nat.not_lt.mpr hinfinite)
    rcases hreading with hreading | hreading <;> rw [hreading] <;> exact not_false

/-- A product as one of units. -/
theorem mulFloor_eq {x : Binary64} (hsign : x.isNegative = false)
    (hfinite : x.pattern < infinitePattern) (limit n : Nat) :
    x.mulFloor limit n =
      min limit (roundSignificant (roundSignificant n * units x.pattern) / unitsInOne) := by
  rcases reading_cases x with ⟨-, s, k, hreading, hunits⟩ | ⟨hinfinite, -⟩
  · rw [mulFloor, hreading, hsign, hunits, ← Nat.mul_assoc, roundSignificant_mul_two_pow]
    dsimp only
    rw [if_neg Bool.false_ne_true, floorScaled_sub, unitsInOne]
  · exact absurd hfinite (Nat.not_lt.mpr hinfinite)

theorem natCast_lt_overflow {n : Nat} (h : n ≤ wordMax) : (n : ℚ) < overflow := by
  have hlt : (n : ℚ) < (2 ^ 64 : Nat) := Nat.cast_lt.mpr (Nat.lt_succ_of_le h)
  exact lt_of_lt_of_le hlt (by exact_mod_cast two_pow_le_overflow)

/-- What is too large for binary64 is too large for 64 bits, also after it is rounded. -/
theorem wordMax_le_of_overflow_le {n : Nat} (h : overflow ≤ n / unitsInOne) :
    wordMax ≤ roundSignificant n / unitsInOne := by
  have hunits : 2 ^ 64 * unitsInOne ≤ n := by
    have hle := (le_div_iff₀ cast_unitsInOne_pos).mp (two_pow_le_overflow.trans h)
    exact_mod_cast hle
  have hword : roundSignificant (2 ^ 64) = 2 ^ 64 := by decide +kernel
  have hrounded := roundSignificant_mono hunits
  rw [unitsInOne, roundSignificant_mul_two_pow, hword, ← unitsInOne] at hrounded
  exact Nat.le_trans (by decide) ((Nat.le_div_iff_mul_le unitsInOne_pos).mpr hrounded)

theorem floor_div_unitsInOne (n : Nat) : ⌊(n / unitsInOne : ℚ)⌋₊ = n / unitsInOne := by
  rw [Nat.floor_div_natCast, Nat.floor_natCast]

end Binary64

namespace Growth

open Binary64

/-- The product of `previous` and the factor, as binary64 has it: `previous` is rounded to a number,
and the exact product of this number and the factor is rounded again. -/
structure Multiplies (g : Growth) (previous : Nat) (converted product : Binary64) : Prop where
  rounds_previous : RoundsTo previous converted
  rounds_product : ∃ c f, converted.number? = some c ∧ g.factor.number? = some f ∧
    RoundsTo (c * f) product

/-- A capacity is the integer part of the product, but no less than one, and it is the greatest
number of 64 bits if the product is larger or infinite. -/
structure Follows (g : Growth) (previous next : Nat) : Prop where
  exists_product : ∃ converted product, g.Multiplies previous converted product
  of_number : ∀ converted product p, g.Multiplies previous converted product →
    product.number? = some p → p ≤ wordMax → next = max 1 ⌊p⌋₊
  of_beyond : ∀ converted product, g.Multiplies previous converted product →
    (product = infinity ∨ ∃ p, product.number? = some p ∧ wordMax < p) → next = wordMax

theorem validate_eq_ok_iff (g : Growth) :
    g.validate = .ok () ↔ g.initial ≠ 0 ∧ g.factor.FiniteAtLeastOne := by
  unfold validate
  split
  · simp_all
  · split <;> simp_all

/-- Settings that are accepted, by the units of their factor. -/
theorem exists_units_of_validate {g : Growth} (h : g.validate = .ok ()) :
    ∃ u, unitsInOne ≤ u ∧ g.factor.number? = some (u / unitsInOne : ℚ) ∧
      ∀ previous, g.next previous =
        max 1 (min wordMax (roundSignificant (roundSignificant previous * u) / unitsInOne)) := by
  obtain ⟨hsign, hfinite, hone⟩ := (finiteAtLeastOne_iff _).mp ((validate_eq_ok_iff g).mp h).2
  refine ⟨units g.factor.pattern, hone, ?_, fun previous => ?_⟩
  · rw [number?_eq_some_iff, hsign]
    exact ⟨hfinite, (one_mul _).symm⟩
  · rw [next, mulFloor_eq hsign hfinite]

/-- The next capacity is what the product comes to that binary64 has. -/
theorem follows_next {g : Growth} (h : g.validate = .ok ()) {previous : Nat}
    (hprevious : previous ≤ wordMax) : g.Follows previous (g.next previous) := by
  obtain ⟨u, -, hfactor, hnext⟩ := exists_units_of_validate h
  have hrange := natCast_lt_overflow hprevious
  have hproduct : (roundSignificant previous * (u / unitsInOne) : ℚ) =
      (roundSignificant previous * u : Nat) / unitsInOne := by
    rw [Nat.cast_mul, mul_div_assoc]
  have hrounds : ∀ converted product, g.Multiplies previous converted product →
      RoundsTo ((roundSignificant previous * u : Nat) / unitsInOne) product := by
    rintro converted product ⟨hconverted, c, f, hc, hf, hrounds⟩
    rw [hconverted.number?_natCast hrange, Option.some.injEq] at hc
    rw [hfactor, Option.some.injEq] at hf
    rwa [← hc, ← hf, hproduct] at hrounds
  rw [hnext]
  refine ⟨?_, ?_, ?_⟩
  · obtain ⟨converted, hconverted⟩ := exists_roundsTo_natCast previous
    obtain ⟨product, hrounds⟩ := exists_roundsTo (roundSignificant previous * u)
    exact ⟨converted, product, hconverted, _, _, hconverted.number?_natCast hrange, hfactor,
      hproduct ▸ hrounds⟩
  · intro converted product p hmultiplies hp hle
    rcases (hrounds _ _ hmultiplies).cases with ⟨-, rfl⟩ | ⟨-, hnumber⟩
    · exact nomatch hp
    · obtain rfl := Option.some.inj (hnumber.symm.trans hp)
      have hfloor := Nat.floor_le_of_le hle
      rw [floor_div_unitsInOne] at hfloor ⊢
      rw [min_eq_right hfloor]
  · intro converted product hmultiplies hbeyond
    have hlarge : wordMax ≤
        roundSignificant (roundSignificant previous * u) / unitsInOne := by
      rcases (hrounds _ _ hmultiplies).cases with ⟨hoverflow, -⟩ | ⟨-, hnumber⟩
      · exact wordMax_le_of_overflow_le hoverflow
      · rcases hbeyond with rfl | ⟨p, hp, hlt⟩
        · exact nomatch hnumber
        · obtain rfl := Option.some.inj (hnumber.symm.trans hp)
          have hfloor := Nat.le_floor hlt.le
          rwa [floor_div_unitsInOne] at hfloor
    rw [min_eq_left hlarge]
    rfl

/-- A capacity does not shrink unless it loses bits when it is rounded. -/
theorem le_next {g : Growth} (h : g.validate = .ok ()) {previous : Nat}
    (hprevious : previous ≤ wordMax) (hkept : roundSignificant previous = previous) :
    previous ≤ g.next previous := by
  obtain ⟨u, hone, -, hnext⟩ := exists_units_of_validate h
  have hunits : roundSignificant (previous * unitsInOne) = previous * unitsInOne := by
    rw [unitsInOne, roundSignificant_mul_two_pow, hkept]
  have hle := roundSignificant_mono (Nat.mul_le_mul_left previous hone)
  rw [hunits] at hle
  rw [hnext, hkept]
  exact Nat.le_trans (Nat.le_min.mpr ⟨hprevious, (Nat.le_div_iff_mul_le unitsInOne_pos).mpr hle⟩)
    (Nat.le_max_right _ _)

/-- The larger of two capacities, or of two factors, is followed by the larger one. -/
theorem next_le_next {g h : Growth} (hg : g.validate = .ok ()) (hh : h.validate = .ok ()) {a b : ℚ}
    (ha : g.factor.number? = some a) (hb : h.factor.number? = some b) (hab : a ≤ b)
    {previous previous' : Nat} (hprevious : previous ≤ previous') :
    g.next previous ≤ h.next previous' := by
  obtain ⟨u, -, hu, hnext⟩ := exists_units_of_validate hg
  obtain ⟨u', -, hu', hnext'⟩ := exists_units_of_validate hh
  have hunits : u ≤ u' := by
    rw [← Option.some.inj (hu.symm.trans ha), ← Option.some.inj (hu'.symm.trans hb),
      div_le_div_iff_of_pos_right cast_unitsInOne_pos] at hab
    exact_mod_cast hab
  have hproduct := Nat.mul_le_mul (roundSignificant_mono hprevious) hunits
  rw [hnext, hnext']
  exact max_le_max le_rfl
    (min_le_min le_rfl (Nat.div_le_div_right (roundSignificant_mono hproduct)))

/-- Under settings that are accepted, the next capacity is the product of capacity and factor as
binary64 has it, taken down to an integer from 1 to the greatest number of 64 bits. It does not get
smaller when the capacity before it or the factor gets larger, and it is no smaller than the
capacity before it if that has a binary64 number of its own, as all have up to `2 ^ 53`. -/
theorem growth_never_goes_backwards {g h : Growth} (hg : g.validate = .ok ())
    (hh : h.validate = .ok ()) :
    (∀ previous : Nat, previous ≤ wordMax → g.Follows previous (g.next previous)) ∧
    Monotone g.next ∧
    (∃ a b, g.factor.number? = some a ∧ h.factor.number? = some b ∧ 1 ≤ a ∧ 1 ≤ b ∧
      (a ≤ b → ∀ previous : Nat, g.next previous ≤ h.next previous)) ∧
    (∀ previous : Nat, previous ≤ wordMax → (∃ x : Binary64, x.number? = some (previous : ℚ)) →
      previous ≤ g.next previous) ∧
    (∀ previous : Nat, previous ≤ 2 ^ 53 → ∃ x : Binary64, x.number? = some (previous : ℚ)) ∧
    ∀ previous : Nat, 1 ≤ g.next previous ∧ g.next previous ≤ wordMax := by
  obtain ⟨u, hone, hu, hnext⟩ := exists_units_of_validate hg
  obtain ⟨u', hone', hu', -⟩ := exists_units_of_validate hh
  refine ⟨fun previous => follows_next hg, fun _ _ => next_le_next hg hg hu hu le_rfl,
    ⟨_, _, hu, hu', ?_, ?_, fun hle _ => next_le_next hg hh hu hu' hle le_rfl⟩, ?_, ?_, ?_⟩
  · rw [one_le_div cast_unitsInOne_pos]
    exact_mod_cast hone
  · rw [one_le_div cast_unitsInOne_pos]
    exact_mod_cast hone'
  · rintro previous hprevious ⟨x, hx⟩
    exact le_next hg hprevious (roundSignificant_of_number? hx)
  · intro previous hprevious
    obtain ⟨x, hx⟩ := exists_roundsTo_natCast previous
    have hrange := natCast_lt_overflow (Nat.le_trans hprevious (by decide))
    exact ⟨x, by rw [hx.number?_natCast hrange, roundSignificant_of_le hprevious]⟩
  · intro previous
    refine ⟨one_le_next g previous, ?_⟩
    rw [hnext]
    exact max_le (by decide) (Nat.min_le_left _ _)

/-- The conversion of `2 ^ 53 + 1` loses its last bit. -/
theorem standard_grows_slower_than_doubling :
    let doubling : Growth := { factor := ⟨0x4000000000000000⟩ }
    standard.validate = .ok () ∧ doubling.validate = .ok () ∧
      standard.Follows (2 ^ 53 + 1) (3 * 2 ^ 52) ∧
      standard.next (2 ^ 53 + 1) ≤ doubling.next (2 ^ 53 + 1) ∧
      2 ^ 53 ≤ standard.next (2 ^ 53) := by
  intro doubling
  have hstandard : standard.validate = .ok () := by decide +kernel
  have hdoubling : doubling.validate = .ok () := by decide +kernel
  have hnext : standard.next (2 ^ 53 + 1) = 3 * 2 ^ 52 := by decide +kernel
  have hhalves : standard.factor.number? = some (3 / 2) := by decide +kernel
  have htwo : doubling.factor.number? = some 2 := by decide +kernel
  obtain ⟨hfollows, -, ⟨a, b, ha, hb, -, -, hle⟩, hkept, hrepresented, -⟩ :=
    growth_never_goes_backwards hstandard hdoubling
  obtain rfl := Option.some.inj (hhalves.symm.trans ha)
  obtain rfl := Option.some.inj (htwo.symm.trans hb)
  exact ⟨hstandard, hdoubling, hnext ▸ hfollows (2 ^ 53 + 1) (by decide), hle (by norm_num) _,
    hkept (2 ^ 53) (by decide) (hrepresented (2 ^ 53) le_rfl)⟩

/-- A factor of one takes a capacity back if its conversion loses bits. -/
example : ({ factor := ⟨0x3FF0000000000000⟩ } : Growth).next (2 ^ 53 + 1) = 2 ^ 53 := by
  decide +kernel

end Growth

end GrowArena
