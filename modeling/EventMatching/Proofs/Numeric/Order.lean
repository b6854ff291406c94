/-
Comparisons of numbers.

NaN stands in no comparison, and numbers are in the order of their ranks. So an end of an interval may be a zero of either sign
or an infinity, and a cut inside the interval still has every number of it on one side (`between_iff`). The interval itself
keeps to one side, unless it crosses the cut, or to both, if it is all on it (`sides_alike_iff`).
-/
import EventMatching.Numeric.Binary

namespace EventMatching
namespace Binary

variable {F : BinaryFormat} {x y z m low high : Binary F}

theorem lt_irrefl (x : Binary F) : x.lt x = false := by simp [lt]

theorem lt_trans (h : x.lt y = true) (h' : y.lt z = true) : x.lt z = true := by
  rw [lt_iff] at *
  exact ⟨h.1, h'.2.1, Int.lt_trans h.2.2 h'.2.2⟩

theorem le_trans (h : x.le y = true) (h' : y.le z = true) : x.le z = true := by
  rw [le_iff] at *
  exact ⟨h.1, h'.2.1, Int.le_trans h.2.2 h'.2.2⟩

theorem le_of_lt (h : x.lt y = true) : x.le y = true := by
  rw [lt_iff] at h
  exact le_iff.2 ⟨h.1, h.2.1, Int.le_of_lt h.2.2⟩

theorem not_le_iff (hx : x.isNaN = false) (hy : y.isNaN = false) : x.le y = false ↔ y.lt x = true := by
  rw [← Bool.not_eq_true, le_iff, lt_iff]
  simp only [hx, hy, true_and]
  omega

/-! ## Cuts of an interval -/

/-- what is between two ends is on one side of a cut between them, and what is on one side of it is between the ends -/
theorem between_iff (hlow : low.le m = true) (hhigh : m.le high = true) :
    low.le x = true ∧ x.le high = true ↔
      low.le x = true ∧ x.le m = true ∨ m.le x = true ∧ x.le high = true := by
  rw [le_iff] at hlow hhigh
  simp only [le_iff, hlow.1, hhigh.1, hhigh.2.1, true_and]
  constructor
  · rintro ⟨⟨hn, hl⟩, -, hh⟩
    rcases Int.le_total x.rank m.rank with hm | hm
    · exact .inl ⟨⟨hn, hl⟩, hn, hm⟩
    · exact .inr ⟨⟨hn, hm⟩, hn, hh⟩
  · rintro (⟨⟨hn, hl⟩, -, hm⟩ | ⟨⟨hn, hm⟩, -, hh⟩)
    · exact ⟨⟨hn, hl⟩, hn, by omega⟩
    · exact ⟨⟨hn, by omega⟩, hn, hh⟩

/-- an interval keeps to both sides of a number just if it is all on it, and to neither just if it crosses it -/
theorem sides_alike_iff (h : low.le high = true) (hm : m.isNaN = false) :
    high.le m = m.le low ↔
      low.lt m = true ∧ m.lt high = true ∨ (low == m) = true ∧ (high == m) = true := by
  obtain ⟨hl, hh, hrank⟩ := le_iff.1 h
  rw [Bool.eq_iff_iff, le_iff, le_iff, lt_iff, lt_iff, beq_iff, beq_iff]
  simp only [hl, hh, hm, true_and]
  omega

end Binary
end EventMatching
