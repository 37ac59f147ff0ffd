/-
  Sets of characters given by ascending ranges of code points.

  `covers` looks a code point up and stops at the first range above it;
  `exists_of_covers`: what is found lies in some range.
-/

namespace IdlFlow

/-- A range of code points, both ends included. -/
abbrev CodeRange := Nat × Nat

namespace CodeRange

/-- Whether some range of an ascending table holds `n`. -/
def covers : List CodeRange → Nat → Bool
  | [], _ => false
  | (low, high) :: ranges, n => low ≤ n && (n ≤ high || covers ranges n)

theorem exists_of_covers {ranges : List CodeRange} {n : Nat} (h : covers ranges n = true) :
    ∃ r ∈ ranges, r.1 ≤ n ∧ n ≤ r.2 := by
  induction ranges with
  | nil => simp [covers] at h
  | cons r ranges ih =>
    simp only [covers, Bool.and_eq_true, Bool.or_eq_true, decide_eq_true_eq] at h
    obtain ⟨low, high | rest⟩ := h
    · exact ⟨r, by simp, low, high⟩
    · obtain ⟨q, hq, bounds⟩ := ih rest
      exact ⟨q, by simp [hq], bounds⟩

end CodeRange

end IdlFlow
