/-
Extents that a difference of sums can see.

Whether an axis that begins at `x` has an extent of at least zero may be asked of the extent itself or of the difference
`(x + w) - x` of its two ends. The two answers differ. A difference from a finite number is exact in its sign
(`zero_le_sub_iff`), but a sum may round back to where it began. So the difference is at least zero exactly if the axis
`Spans`: it begins at a finite number, and the extent is at least zero, infinity included, or too small to move it
(`zero_le_extent_iff`).
-/
import EventMatching.Proofs.Numeric.Rounding

namespace EventMatching
namespace Binary

variable {F : BinaryFormat} {x y : Binary F}

/-! ## Negatives -/

theorem neg_eq (x : Binary F) : -x = ⟨!x.negative, x.code, x.code_lt⟩ := rfl

theorem sub_eq (x y : Binary F) : x - y = x + -y := rfl

theorem neg_infinity (s : Bool) : -(infinity s : Binary F) = infinity (!s) := rfl

theorem isFinite_neg (x : Binary F) : (-x).isFinite = x.isFinite := rfl

theorem toUnits_neg (x : Binary F) : (-x).toUnits = -x.toUnits := by
  rw [neg_eq]
  obtain ⟨s, c, hc⟩ := x
  cases s <;> simp [toUnits]

/-! ## Sums by kind -/

theorem add_eq (x y : Binary F) : x + y = add x y := rfl

theorem isNaN_add_left (h : x.isNaN = true) (y : Binary F) : (x + y).isNaN = true := by simp [add_eq, add, h]

theorem isNaN_add_right (x : Binary F) (h : y.isNaN = true) : (x + y).isNaN = true := by simp [add_eq, add, h]

theorem add_infinity (h : x.isFinite = true) (s : Bool) : x + infinity s = infinity s := by
  obtain ⟨hn, hi⟩ := isFinite_iff.1 h
  simp [add_eq, add, hn, hi]

theorem infinity_add (s : Bool) (h : y.isFinite = true) : infinity s + y = infinity s := by
  obtain ⟨hn, hi⟩ := isFinite_iff.1 h
  simp [add_eq, add, hn, hi]

theorem infinity_add_infinity (s s' : Bool) :
    (infinity s + infinity s' : Binary F) = if s = s' then infinity s else nan := by
  simp only [add_eq, add, isNaN_infinity, isInfinite_infinity, Bool.or_self, Bool.false_eq_true, if_true, if_false, Bool.true_and]
  cases s <;> cases s' <;> rfl

/-- a sum that begins with an infinity is that infinity or no number -/
theorem infinity_add_cases (s : Bool) (y : Binary F) : infinity s + y = infinity s ∨ (infinity s + y).isNaN = true := by
  rcases kinds y with hy | ⟨s', rfl⟩ | hy
  · exact .inr (isNaN_add_right _ hy)
  · rw [infinity_add_infinity]
    split
    · exact .inl rfl
    · exact .inr isNaN_nan
  · exact .inl (infinity_add s hy)

/-- taking away an infinity leaves no number, if it was there before -/
theorem isNaN_infinity_add_sub (s : Bool) (y : Binary F) : (infinity s + y - infinity s).isNaN = true := by
  rcases infinity_add_cases s y with hsum | hsum
  · rw [hsum, sub_eq, neg_infinity, infinity_add_infinity, if_neg (by cases s <;> decide), isNaN_nan]
  · exact isNaN_add_left hsum _

theorem add_finite (hx : x.isFinite = true) (hy : y.isFinite = true) :
    x + y = round (x.negative && y.negative) (x.toUnits + y.toUnits) 1 := by
  obtain ⟨hxn, hxi⟩ := isFinite_iff.1 hx
  obtain ⟨hyn, hyi⟩ := isFinite_iff.1 hy
  simp [add_eq, add, hxn, hxi, hyn, hyi]

/-! ## The sign of a difference -/

/-- a whole number of units is rounded to a number of its sign -/
theorem rank_round_nonneg (s : Bool) (num : Int) : 0 ≤ (round s num 1 : Binary F).rank ↔ 0 ≤ num := by
  have htop := top_pos F
  have hstep : 1 < F.step := Nat.one_lt_two_pow (Nat.pos_iff_ne_zero.1 F.fractionBits_pos)
  have hone : F.nearest 1 1 = 1 := by
    have := F.nearest_units Nat.one_pos (c := 1) htop
    rwa [F.units_of_lt hstep] at this
  rw [rank_round s num Nat.one_pos]
  split
  · have hunit : 1 * 1 ≤ num.natAbs * 1 := by omega
    have := F.nearest_le_nearest Nat.one_pos Nat.one_pos hunit
    omega
  · omega

/-- **A difference from a finite number has the right sign**, although it is rounded. -/
theorem zero_le_sub_iff (hx : x.isFinite = true) : zero.le (y - x) = true ↔ x.le y = true := by
  rw [sub_eq, le_iff, le_iff, isNaN_zero, rank_zero]
  have hxn := (isFinite_iff.1 hx).1
  have hneg : (-x).isFinite = true := by rwa [isFinite_neg]
  rcases kinds y with hy | ⟨s, rfl⟩ | hy
  · simp [isNaN_add_left hy, hy]
  · have := rank_lt_top hx
    rw [infinity_add s hneg, isNaN_infinity, rank_infinity, hxn]
    simp only [true_and]
    split <;> omega
  · rw [add_finite hy hneg, isNaN_round, rank_round_nonneg, toUnits_neg, ← toUnits_le_iff, hxn, (isFinite_iff.1 hy).1]
    simp only [true_and]
    omega

/-- adding `w` to a finite number does not lead below it exactly if `w` is at least zero, or is lost in rounding -/
theorem le_add_iff {w : Binary F} (hx : x.isFinite = true) :
    x.le (x + w) = true ↔ zero.le w = true ∨ (x + w == x) = true := by
  have hxn := (isFinite_iff.1 hx).1
  rw [le_iff, le_iff, beq_iff, isNaN_zero, rank_zero]
  rcases kinds w with hw | ⟨s, rfl⟩ | hw
  · simp [isNaN_add_right x hw, hw]
  · have := rank_lt_top hx
    rw [add_infinity hx, isNaN_infinity, rank_infinity, hxn]
    simp only [true_and]
    split <;> omega
  · rw [add_finite hx hw, isNaN_round, hxn, (isFinite_iff.1 hw).1]
    simp only [true_and]
    -- the sum is rounded, and `x` is its own rounding
    have hself := rank_round_toUnits (x.negative && w.negative) hxn
    have hzero : (zero : Binary F).toUnits = 0 := toUnits_of_zero rfl
    have hsign : 0 ≤ w.toUnits ↔ 0 ≤ w.rank := by
      have := toUnits_le_iff (x := (zero : Binary F)) (y := w)
      rwa [hzero, rank_zero] at this
    rcases Int.lt_or_le w.toUnits 0 with hneg | hpos
    · have hdown : x.toUnits + w.toUnits ≤ x.toUnits := by omega
      have := rank_round_le (F := F) (x.negative && w.negative) (x.negative && w.negative) Nat.one_pos hdown
      omega
    · have hup : x.toUnits ≤ x.toUnits + w.toUnits := by omega
      have := rank_round_le (F := F) (x.negative && w.negative) (x.negative && w.negative) Nat.one_pos hup
      omega

/-! ## Axes -/

/-- an axis that begins at a finite number, with an extent that is at least zero, or that rounding loses -/
structure Spans (origin extent : Binary F) : Prop where
  finite : origin.isFinite = true
  extent : zero.le extent = true ∨ (origin + extent == origin) = true

/-- **The difference of its ends is at least zero exactly on an axis that spans.** -/
theorem zero_le_extent_iff {origin extent : Binary F} :
    zero.le (origin + extent - origin) = true ↔ Spans origin extent := by
  rcases kinds origin with hn | ⟨s, rfl⟩ | hf
  · have : (origin + extent - origin).isNaN = true := isNaN_add_left (isNaN_add_left hn extent) _
    refine iff_of_false (by simp [le, this]) fun h => ?_
    rw [(isFinite_iff.1 h.finite).1] at hn
    cases hn
  · refine iff_of_false (by simp [le, isNaN_infinity_add_sub]) fun h => ?_
    have := (isFinite_iff.1 h.finite).2
    rw [isInfinite_infinity] at this
    cases this
  · rw [zero_le_sub_iff hf, le_add_iff hf]
    exact ⟨fun h => ⟨hf, h⟩, fun h => h.extent⟩

instance (origin extent : Binary F) : Decidable (Spans origin extent) := decidable_of_iff _ zero_le_extent_iff

/-- an extent that is negative or not finite -/
def Degenerate (extent : Binary F) : Prop := extent.isFinite = false ∨ extent.lt zero = true

/-- no axis spans with a degenerate extent, but for infinity and what is lost in rounding -/
theorem Degenerate.spans_iff {origin extent : Binary F} (h : Degenerate extent) :
    Spans origin extent ↔
      origin.isFinite = true ∧ (extent = infinity false ∨ (origin + extent == origin) = true) := by
  have hzero : zero.le extent = true ↔ extent = infinity false := by
    constructor
    · intro hle
      obtain ⟨-, hn, hrank⟩ := le_iff.1 hle
      rcases h with hf | hlt
      · have hi : extent.isInfinite = true := by
          rw [← Bool.not_eq_false]
          exact fun hi => Bool.eq_false_iff.1 hf (isFinite_iff.2 ⟨hn, hi⟩)
        have htop := top_pos F
        rw [eq_infinity hi] at hrank ⊢
        rw [rank_zero, rank_infinity] at hrank
        cases hs : extent.negative with
        | false => rfl
        | true =>
          rw [hs, if_pos rfl] at hrank
          omega
      · have := (lt_iff.1 hlt).2.2
        omega
    · rintro rfl
      rw [le_iff, isNaN_zero, isNaN_infinity, rank_zero, rank_infinity]
      exact ⟨rfl, rfl, Int.natCast_nonneg _⟩
  exact ⟨fun hs => ⟨hs.finite, hs.extent.imp_left hzero.1⟩, fun hs => ⟨hs.1, hs.2.imp_left hzero.2⟩⟩

end Binary
end EventMatching
