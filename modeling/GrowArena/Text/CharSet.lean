/-!
Sets of characters that are given by ranges of code points. A look-up stops at the first range that
begins too late, and still finds whatever one of the ranges holds.
-/

namespace GrowArena.Text

namespace CharSet

/-- Whether the ranges, each with its first and its last code point, ascend from a code point on and
do not meet. -/
def ascend : Nat → List (Nat × Nat) → Bool
  | _, [] => true
  | least, (first, last) :: rest => least ≤ first && first ≤ last && ascend (last + 1) rest

/-- Whether one of the ranges holds the code point, if they ascend. -/
def covers : List (Nat × Nat) → Nat → Bool
  | [], _ => false
  | (first, last) :: rest, n => first ≤ n && (n ≤ last || covers rest n)

theorem le_of_ascend {least : Nat} {ranges : List (Nat × Nat)} (h : ascend least ranges = true)
    {r : Nat × Nat} (hr : r ∈ ranges) : least ≤ r.1 := by
  induction ranges generalizing least with
  | nil => simp at hr
  | cons head rest ih =>
      simp only [ascend, Bool.and_eq_true, decide_eq_true_eq] at h
      obtain rfl | hr := List.mem_cons.1 hr
      · exact h.1.1
      · have := ih h.2 hr
        omega

theorem covers_iff {least : Nat} {ranges : List (Nat × Nat)} (h : ascend least ranges = true)
    (n : Nat) : covers ranges n = true ↔ ∃ r ∈ ranges, r.1 ≤ n ∧ n ≤ r.2 := by
  induction ranges generalizing least with
  | nil => simp [covers]
  | cons head rest ih =>
      simp only [ascend, Bool.and_eq_true, decide_eq_true_eq] at h
      have later : ∀ r ∈ rest, head.1 ≤ r.1 := fun r hr => by
        have := le_of_ascend h.2 hr
        omega
      simp only [covers, Bool.and_eq_true, Bool.or_eq_true, decide_eq_true_eq, ih h.2,
        List.mem_cons, exists_eq_or_imp]
      constructor
      · rintro ⟨hn, hlast | hrest⟩
        · exact .inl ⟨hn, hlast⟩
        · exact .inr hrest
      · rintro (hn | ⟨r, hr, hn⟩)
        · exact ⟨hn.1, .inl hn.2⟩
        · exact ⟨Nat.le_trans (later r hr) hn.1, .inr ⟨r, hr, hn⟩⟩

end CharSet

structure CharSet where
  ranges : List (Nat × Nat)
  ascending : CharSet.ascend 0 ranges = true := by decide +kernel

namespace CharSet

def contains (s : CharSet) (c : Char) : Bool := covers s.ranges c.toNat

theorem contains_iff (s : CharSet) (c : Char) :
    s.contains c = true ↔ ∃ r ∈ s.ranges, r.1 ≤ c.toNat ∧ c.toNat ≤ r.2 :=
  covers_iff s.ascending c.toNat

end CharSet

end GrowArena.Text
