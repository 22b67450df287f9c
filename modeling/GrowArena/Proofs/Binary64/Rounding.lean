import GrowArena.Binary64
import Mathlib.Algebra.Order.Group.Abs
import Mathlib.Order.Monotone.Basic
import Mathlib.Tactic.Ring

/-!
Rounding to 53 significant bits. The patterns without a sign, one after the other, stand for ever
larger numbers, all of them multiples of the least one above zero. In that unit, rounding takes a
number to the nearest of those that have a pattern, and from the middle between two of them to the
one with the even pattern. Hence it keeps the order of numbers, and the numbers that have a pattern.
-/

namespace GrowArena.Binary64

/-- The number that a pattern without a sign stands for, in units of the least one above zero. -/
def units (pattern : Nat) : Nat :=
  if pattern < hiddenBit then pattern
  else (hiddenBit + pattern % hiddenBit) * 2 ^ (pattern / hiddenBit - 1)

theorem units_zero : units 0 = 0 := rfl

/-- From one power of two up to the next, patterns count significands. -/
theorem units_binade {k m : Nat} (hm : m ≤ 2 * hiddenBit) (hk : k = 0 ∨ hiddenBit ≤ m) :
    units (k * hiddenBit + m) = m * 2 ^ k := by
  unfold units hiddenBit at *
  rcases Nat.lt_or_ge m 0x10000000000000 with hsmall | hnormal
  · obtain rfl : k = 0 := by omega
    rw [if_pos (by omega)]
    omega
  · rw [if_neg (by omega)]
    rcases Nat.lt_or_eq_of_le hm with hinside | rfl
    · have hmod : (k * 0x10000000000000 + m) % 0x10000000000000 = m - 0x10000000000000 := by omega
      have hdiv : (k * 0x10000000000000 + m) / 0x10000000000000 - 1 = k := by omega
      rw [hmod, hdiv, Nat.add_sub_cancel' hnormal]
    · have hmod : (k * 0x10000000000000 + 2 * 0x10000000000000) % 0x10000000000000 = 0 := by omega
      have hdiv : (k * 0x10000000000000 + 2 * 0x10000000000000) / 0x10000000000000 - 1 = k + 1 := by
        omega
      rw [hmod, hdiv, Nat.pow_succ]
      ring

theorem exists_binade (p : Nat) :
    ∃ k m, p = k * hiddenBit + m ∧ m < 2 * hiddenBit ∧ (k = 0 ∨ hiddenBit ≤ m) := by
  unfold hiddenBit
  rcases Nat.lt_or_ge p 0x10000000000000 with hsmall | hnormal
  · exact ⟨0, p, by omega, by omega, .inl rfl⟩
  · exact ⟨p / 0x10000000000000 - 1, 0x10000000000000 + p % 0x10000000000000, by omega, by omega,
      .inr (by omega)⟩

theorem units_lt_units_succ (p : Nat) : units p < units (p + 1) := by
  obtain ⟨k, m, rfl, hm, hk⟩ := exists_binade p
  have hnext : k = 0 ∨ hiddenBit ≤ m + 1 := hk.imp_right (Nat.le_succ_of_le ·)
  rw [Nat.add_assoc, units_binade hm hnext, units_binade (Nat.le_of_lt hm) hk]
  exact Nat.mul_lt_mul_of_pos_right (Nat.lt_succ_self m) (Nat.two_pow_pos k)

theorem strictMono_units : StrictMono units :=
  strictMono_nat_of_lt_succ units_lt_units_succ

theorem units_le_units {p p' : Nat} : units p ≤ units p' ↔ p ≤ p' :=
  strictMono_units.le_iff_le

/-- The number of `pattern` is the nearest to `n`, and if that of another pattern is as near, then
this pattern is even. -/
def NearestPattern (n pattern : Nat) : Prop :=
  ∀ p, |(units pattern : ℤ) - n| ≤ |(units p : ℤ) - n| ∧
    (|(units p : ℤ) - n| = |(units pattern : ℤ) - n| → p = pattern ∨ pattern % 2 = 0)

/-- The nearer of two numbers is the one on this side of their middle. -/
theorem abs_sub_le_iff_of_lt {a b n : ℤ} (h : a < b) :
    (|a - n| ≤ |b - n| ↔ 2 * n ≤ a + b) ∧ (|b - n| ≤ |a - n| ↔ a + b ≤ 2 * n) := by
  rcases abs_cases (a - n) with ha | ha <;> rcases abs_cases (b - n) with hb | hb <;> omega

theorem abs_units_sub_of_le {n p : Nat} (h : units p ≤ n) :
    |(units p : ℤ) - n| = n - units p := by
  rw [abs_sub_comm, abs_of_nonneg (by omega)]

theorem abs_units_sub_of_ge {n p : Nat} (h : n ≤ units p) :
    |(units p : ℤ) - n| = units p - n :=
  abs_of_nonneg (by omega)

/-- Of two patterns one after the other, with the number between theirs, the nearer one is the
nearest of all. -/
theorem nearestPattern_of_between {n p : Nat} (hle : units p ≤ n) (hlt : n < units (p + 1)) :
    (2 * n ≤ units p + units (p + 1) → (2 * n = units p + units (p + 1) → p % 2 = 0) →
      NearestPattern n p) ∧
    (units p + units (p + 1) ≤ 2 * n → (2 * n = units p + units (p + 1) → p % 2 = 1) →
      NearestPattern n (p + 1)) := by
  have hsides : ∀ p', (units p' ≤ units p ∧ |(units p' : ℤ) - n| = n - units p') ∨
      (units (p + 1) ≤ units p' ∧ |(units p' : ℤ) - n| = units p' - n) := by
    intro p'
    rcases Nat.lt_or_ge p p' with h | h
    · have hbeyond := units_le_units (p := p + 1).mpr h
      exact .inr ⟨hbeyond, abs_units_sub_of_ge (by omega)⟩
    · have hwithin := units_le_units.mpr h
      exact .inl ⟨hwithin, abs_units_sub_of_le (by omega)⟩
  constructor
  · intro hnear heven p'
    rw [abs_units_sub_of_le hle]
    rcases hsides p' with ⟨hp', habs⟩ | ⟨hp', habs⟩ <;> rw [habs]
    · refine ⟨by omega, fun heq => .inl (strictMono_units.injective ?_)⟩
      omega
    · exact ⟨by omega, fun heq => .inr (heven (by omega))⟩
  · intro hnear hodd p'
    rw [abs_units_sub_of_ge (Nat.le_of_lt hlt)]
    rcases hsides p' with ⟨hp', habs⟩ | ⟨hp', habs⟩ <;> rw [habs]
    · refine ⟨by omega, fun heq => .inr ?_⟩
      have := hodd (by omega)
      omega
    · refine ⟨by omega, fun heq => .inl (strictMono_units.injective ?_)⟩
      omega

/-- A number has one nearest pattern: two that are as near and even have another between them, which
is nearer. -/
theorem NearestPattern.unique {n p p' : Nat} (h : NearestPattern n p) (h' : NearestPattern n p') :
    p = p' := by
  wlog hlt : p < p' generalizing p p'
  · rcases Nat.lt_or_eq_of_le (Nat.not_lt.mp hlt) with hlt' | heq
    · exact (this h' h hlt').symm
    · exact heq.symm
  have hdist := le_antisymm (h p').1 (h' p).1
  have heven := ((h p').2 hdist.symm).resolve_left (Nat.ne_of_gt hlt)
  have heven' := ((h' p).2 hdist).resolve_left (Nat.ne_of_lt hlt)
  have hbelow : units p < units (p + 1) := strictMono_units (Nat.lt_succ_self p)
  have habove : units (p + 1) < units p' := strictMono_units (by omega)
  have hmiddle : (units p : ℤ) + units p' = 2 * n := by
    rcases abs_eq_abs.mp hdist with heq | heq <;> omega
  have hnearer : |(units (p + 1) : ℤ) - n| < |(units p : ℤ) - n| := by
    rw [abs_units_sub_of_le (p := p) (by omega), abs_lt]
    omega
  exact absurd (h (p + 1)).1 (not_le.mpr hnearer)

/-- The bits that are kept, as a number: a significand, with its first bit unless none is
dropped. -/
theorem div_two_pow_excessBits (n : Nat) :
    n / 2 ^ excessBits n < 2 * hiddenBit ∧
      (excessBits n = 0 ∨ hiddenBit ≤ n / 2 ^ excessBits n) := by
  have hpos := Nat.two_pow_pos (excessBits n)
  constructor
  · rw [Nat.div_lt_iff_lt_mul hpos]
    calc n < 2 ^ (n.log2 + 1) := Nat.lt_log2_self
      _ ≤ 2 ^ (53 + excessBits n) := Nat.pow_le_pow_right (by decide) (by unfold excessBits; omega)
      _ = 2 * hiddenBit * 2 ^ excessBits n := by rw [Nat.pow_add]; rfl
  · rcases Nat.lt_or_ge n.log2 52 with hsmall | hlarge
    · exact .inl (by unfold excessBits; omega)
    · right
      have hn : n ≠ 0 := by
        rintro rfl
        simp at hlarge
      rw [Nat.le_div_iff_mul_le hpos]
      calc hiddenBit * 2 ^ excessBits n = 2 ^ (52 + excessBits n) := by rw [Nat.pow_add]; rfl
        _ = 2 ^ n.log2 := by unfold excessBits; congr 1; omega
        _ ≤ n := Nat.log2_self_le hn

theorem roundSignificant_eq (n : Nat) :
    roundSignificant n =
      let step := 2 ^ excessBits n
      if step < 2 * (n % step) ∨ (step = 2 * (n % step) ∧ n / step % 2 = 1) then
        (n / step + 1) * step
      else n / step * step := by
  rw [roundSignificant, Nat.shiftLeft_eq, Nat.one_mul]

/-- Rounding takes a number to that of its nearest pattern. -/
theorem exists_nearestPattern (n : Nat) :
    ∃ p, NearestPattern n p ∧ roundSignificant n = units p := by
  rw [roundSignificant_eq]
  obtain ⟨hbelow, hnormal⟩ := div_two_pow_excessBits n
  have hlow := units_binade (Nat.le_of_lt hbelow) hnormal
  have hhigh := units_binade (k := excessBits n) hbelow
    (hnormal.imp_right (Nat.le_succ_of_le ·))
  rw [Nat.succ_eq_add_one, ← Nat.add_assoc] at hhigh
  have hparity : (excessBits n * hiddenBit + n / 2 ^ excessBits n) % 2 =
      n / 2 ^ excessBits n % 2 := by
    unfold hiddenBit
    omega
  have hsplit := Nat.div_add_mod' n (2 ^ excessBits n)
  have hrest := Nat.mod_lt n (Nat.two_pow_pos (excessBits n))
  generalize excessBits n * hiddenBit + n / 2 ^ excessBits n = p at *
  generalize 2 ^ excessBits n = step at *
  have hgap := hhigh
  rw [Nat.succ_mul] at hgap
  obtain ⟨hdown, hup⟩ := nearestPattern_of_between (n := n) (p := p) (by omega) (by omega)
  dsimp only
  split
  · exact ⟨p + 1, hup (by omega) (by omega), hhigh.symm⟩
  · exact ⟨p, hdown (by omega) (by omega), hlow.symm⟩

theorem roundSignificant_of_nearest {n p : Nat} (h : NearestPattern n p) :
    roundSignificant n = units p := by
  obtain ⟨p', hp', hround⟩ := exists_nearestPattern n
  rw [hround, h.unique hp']

/-- A number that has a pattern is kept. -/
theorem roundSignificant_units (p : Nat) : roundSignificant (units p) = units p := by
  refine roundSignificant_of_nearest fun p' => ?_
  rw [sub_self, abs_zero]
  refine ⟨abs_nonneg _, fun h => .inl (strictMono_units.injective ?_)⟩
  have := abs_eq_zero.mp h
  omega

/-- The numbers up to here have all their bits among the first 53. -/
theorem roundSignificant_of_le {n : Nat} (h : n ≤ 2 ^ 53) : roundSignificant n = n := by
  have hunits := units_binade (k := 0) (m := n) h (.inl rfl)
  rw [Nat.zero_mul, Nat.zero_add, Nat.pow_zero, Nat.mul_one] at hunits
  rw [← hunits, roundSignificant_units]

theorem roundSignificant_mono : Monotone roundSignificant := by
  intro n n' hn
  obtain ⟨p, hp, hround⟩ := exists_nearestPattern n
  obtain ⟨p', hp', hround'⟩ := exists_nearestPattern n'
  rw [hround, hround']
  by_contra hless
  rw [not_le] at hless
  -- Each number is on the side of the other's pattern, so both are the middle of the two.
  have hnear := (abs_sub_le_iff_of_lt (n := n) (by omega)).2.mp (hp p').1
  have hnear' := (abs_sub_le_iff_of_lt (n := n') (by omega)).1.mp (hp' p).1
  obtain rfl : n = n' := by omega
  rw [hp.unique hp'] at hless
  exact Nat.lt_irrefl _ hless

/-- A number is kept if it has zeros only beyond its first 53 bits. -/
theorem roundSignificant_of_dvd {n : Nat} (h : 2 ^ excessBits n ∣ n) : roundSignificant n = n := by
  have hpos := Nat.two_pow_pos (excessBits n)
  rw [roundSignificant_eq]
  dsimp only
  rw [Nat.mod_eq_zero_of_dvd h, if_neg (by omega), Nat.div_mul_cancel h]

theorem log2_mul_two_pow {n : Nat} (hn : n ≠ 0) (j : Nat) : (n * 2 ^ j).log2 = n.log2 + j := by
  induction j with
  | zero => simp
  | succ j ih =>
      have hpos := Nat.mul_pos (Nat.pos_of_ne_zero hn) (Nat.two_pow_pos j)
      rw [Nat.pow_succ, ← Nat.mul_assoc, Nat.mul_comm _ 2, Nat.log2_two_mul (Nat.ne_of_gt hpos), ih]
      rfl

/-- Rounding goes by significant bits, whatever the unit. -/
theorem roundSignificant_mul_two_pow (n j : Nat) :
    roundSignificant (n * 2 ^ j) = roundSignificant n * 2 ^ j := by
  rcases Nat.eq_zero_or_pos n with rfl | hn
  · rw [Nat.zero_mul, roundSignificant_of_dvd (Nat.dvd_zero _), Nat.zero_mul]
  have hlog := log2_mul_two_pow (Nat.ne_of_gt hn) j
  rcases Nat.lt_or_ge n.log2 52 with hsmall | hlarge
  · -- All bits are kept: of the further zeros, no more than were appended are beyond the first 53.
    have hkept : roundSignificant n = n := by
      apply roundSignificant_of_dvd
      rw [excessBits, Nat.sub_eq_zero_of_le (Nat.le_of_lt hsmall)]
      exact Nat.one_dvd n
    rw [hkept]
    apply roundSignificant_of_dvd
    refine Nat.dvd_trans (Nat.pow_dvd_pow 2 ?_) (Nat.dvd_mul_left (2 ^ j) n)
    rw [excessBits, hlog]
    omega
  · have hexcess : excessBits (n * 2 ^ j) = excessBits n + j := by
      rw [excessBits, excessBits, hlog]
      omega
    have hpos := Nat.two_pow_pos j
    rw [roundSignificant_eq, roundSignificant_eq, hexcess, Nat.pow_add]
    dsimp only
    rw [Nat.mul_mod_mul_right, Nat.mul_div_mul_right _ _ hpos, ← Nat.mul_assoc 2]
    simp only [Nat.mul_lt_mul_right hpos, Nat.mul_left_inj (Nat.ne_of_gt hpos)]
    split <;> rw [Nat.mul_assoc]

end GrowArena.Binary64
