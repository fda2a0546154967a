/-! # Character classes as ranges of code points

A class of characters is an ascending list of closed, disjoint ranges of code points.
-/
namespace FirmwareAudit.Text

/-- Whether a code point lies in one of the ascending ranges; those behind it are not looked at. -/
def inRanges : List (Nat × Nat) → Nat → Bool
  | [], _ => false
  | (low, high) :: rest, n => if n < low then false else if n ≤ high then true else inRanges rest n

/-- Whether ranges follow one another without overlap, none of them below `bound`. -/
def ascendFrom (bound : Nat) : List (Nat × Nat) → Bool
  | [] => true
  | (low, high) :: rest => bound ≤ low && low ≤ high && ascendFrom (high + 1) rest

theorem le_of_ascendFrom {bound : Nat} {ranges : List (Nat × Nat)} (h : ascendFrom bound ranges)
    {r : Nat × Nat} (hr : r ∈ ranges) : bound ≤ r.1 := by
  induction ranges generalizing bound with
  | nil => simp at hr
  | cons first rest ih =>
    obtain ⟨low, high⟩ := first
    simp only [ascendFrom, Bool.and_eq_true, decide_eq_true_eq] at h
    rcases List.mem_cons.1 hr with rfl | hr
    · exact h.1.1
    · have := ih h.2 hr
      omega

/-- In an ascending list, to be in one of the ranges is to be in the class. -/
theorem inRanges_iff {bound : Nat} {ranges : List (Nat × Nat)} (h : ascendFrom bound ranges)
    (n : Nat) : inRanges ranges n ↔ ∃ r ∈ ranges, r.1 ≤ n ∧ n ≤ r.2 := by
  induction ranges generalizing bound with
  | nil => simp [inRanges]
  | cons first rest ih =>
    obtain ⟨low, high⟩ := first
    simp only [ascendFrom, Bool.and_eq_true, decide_eq_true_eq] at h
    have hrest : inRanges rest n ↔ ∃ r ∈ rest, r.1 ≤ n ∧ n ≤ r.2 := ih h.2
    by_cases hlow : n < low
    · have hnone : ¬ ∃ r ∈ rest, r.1 ≤ n ∧ n ≤ r.2 := by
        rintro ⟨r, hr, hle, _⟩
        have := le_of_ascendFrom h.2 hr
        omega
      simp only [inRanges, hlow, if_true, List.mem_cons, exists_eq_or_imp, Bool.false_eq_true,
        false_iff, not_or]
      exact ⟨by omega, hnone⟩
    · by_cases hhigh : n ≤ high
      · have : low ≤ n := by omega
        simp [inRanges, hlow, hhigh, this]
      · simpa [inRanges, hlow, hhigh] using hrest

end FirmwareAudit.Text
