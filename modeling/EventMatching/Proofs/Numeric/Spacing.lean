/-
Distances between neighbouring numbers.

`spacing` is the distance from a magnitude to the next, and a rounded quotient is off by at most half of that on either side
(`nearest_error`, `round_error`). `gapAbove` is the distance from a number to the next above it. A whole number of units is
rounded to something above a number just if it is beyond the middle of that gap (`rank_lt_round_iff`), and to an infinity just
from `overflow` on, which counts half units (`isFinite_round_iff`). So both questions about a sum, whether it is finite and
whether it is above its first summand, are questions about exact values: the sum `Advances` or not (`advances_iff`).
-/
import EventMatching.Proofs.Numeric.Extent

namespace EventMatching
namespace BinaryFormat

variable (F : BinaryFormat)

/-- the distance from the magnitude of a code to the next one -/
def spacing (code : Nat) : Nat := Nat.pow 2 (code / F.step - 1)

theorem units_add_spacing (c : Nat) : F.units c + F.spacing c = F.units (c + 1) := (F.units_succ c).symm

theorem spacing_le {a b : Nat} (h : a ≤ b) : F.spacing a ≤ F.spacing b :=
  Nat.pow_le_pow_right (by omega) (Nat.sub_le_sub_right (Nat.div_le_div_right h) 1)

/-- **Rounding is off by half a spacing at most.** -/
theorem nearest_error {num den : Nat} (hden : 0 < den) (h : F.nearest num den < F.top) :
    den * (2 * F.units (F.nearest num den)) ≤ 2 * num + den * F.spacing (F.nearest num den) ∧
      2 * num ≤ den * (2 * F.units (F.nearest num den)) + den * F.spacing (F.nearest num den) := by
  obtain ⟨c, hc⟩ : ∃ c, F.nearest num den = c := ⟨_, rfl⟩
  rw [hc] at h ⊢
  have hmiddle : ∀ k, den * (F.units k + F.units (k + 1)) = den * (2 * F.units k) + den * F.spacing k := by
    intro k
    rw [← units_add_spacing, ← Nat.mul_add]
    congr 1
    omega
  constructor
  · -- the quotient is beyond the code before
    cases c with
    | zero => simp [Binary.units_zero]
    | succ k =>
      have hbeyond : F.Beyond k num den := (F.lt_nearest_iff hden (by omega)).1 (by omega)
      have hstep : den * (2 * F.units (k + 1)) = den * (2 * F.units k) + den * F.spacing k + den * F.spacing k := by
        rw [← units_add_spacing, ← Nat.mul_add, ← Nat.mul_add]
        congr 1
        omega
      have hspacing := Nat.mul_le_mul_left den (F.spacing_le (Nat.le_add_right k 1))
      unfold Beyond at hbeyond
      rw [hmiddle] at hbeyond
      omega
  · -- and not beyond its own
    have hnot : ¬F.Beyond c num den := fun hbeyond => by
      have := (F.lt_nearest_iff hden h).2 hbeyond
      omega
    unfold Beyond at hnot
    rw [hmiddle] at hnot
    omega

theorem step_even : F.step % 2 = 0 := by
  obtain ⟨n, hn⟩ : ∃ n, F.fractionBits = n + 1 := ⟨F.fractionBits - 1, by have := F.fractionBits_pos; omega⟩
  rw [step, hn]
  exact Nat.mul_mod_left _ 2

/-- twice the least whole number of units that is rounded to infinity -/
def overflow : Nat := F.units (F.top - 1) + F.units F.top

theorem overflow_eq : F.overflow = 2 * F.units (F.top - 1) + F.spacing (F.top - 1) := by
  have := F.units_add_spacing (F.top - 1)
  rw [Nat.sub_add_cancel (Binary.top_pos F)] at this
  unfold overflow
  omega

theorem nearest_lt_top_iff {num : Nat} : F.nearest num 1 < F.top ↔ 2 * num < F.overflow := by
  have htop := Binary.top_pos F
  have heven : F.top % 2 = 0 := by
    rw [top, Nat.mul_mod, step_even, Nat.mul_zero, Nat.zero_mod]
  have hlast : F.top - 1 < F.nearest num 1 ↔ F.Beyond (F.top - 1) num 1 := F.lt_nearest_iff Nat.one_pos (by omega)
  rw [Beyond, Nat.sub_add_cancel htop, Nat.one_mul] at hlast
  unfold overflow
  omega

end BinaryFormat

namespace Binary

variable {F : BinaryFormat} {x w : Binary F}

/-- the distance from the magnitude of a number to the next one -/
def spacing (x : Binary F) : Nat := F.spacing x.code

theorem toUnits_round (s : Bool) (num : Int) {den : Nat} (hden : 0 < den) :
    (round s num den : Binary F).toUnits =
      if num < 0 then -(F.units (F.nearest num.natAbs den) : Int) else F.units (F.nearest num.natAbs den) := by
  rcases Int.lt_trichotomy num 0 with hneg | rfl | hpos
  · simp [round, toUnits, ofCode, hneg, Int.ne_of_lt hneg]
  · simp [round, toUnits, ofCode, nearest_zero hden, units_zero]
  · have h : ¬num < 0 := by omega
    simp [round, toUnits, ofCode, h, (Int.ne_of_lt hpos).symm]

/-- **Rounding is off by half a spacing at most** on signed numbers. -/
theorem round_error (s : Bool) (num : Int) {den : Nat} (hden : 0 < den) (h : (round s num den : Binary F).isFinite = true) :
    let x : Binary F := round s num den
    den * (2 * x.toUnits) ≤ 2 * num + den * x.spacing ∧ 2 * num ≤ den * (2 * x.toUnits) + den * x.spacing := by
  intro x
  have hfinite : F.nearest num.natAbs den < F.top := of_decide_eq_true h
  obtain ⟨hhigh, hlow⟩ := F.nearest_error hden hfinite
  have hspacing : x.spacing = F.spacing (F.nearest num.natAbs den) := rfl
  rw [hspacing, toUnits_round s num hden]
  generalize F.nearest num.natAbs den = c at hhigh hlow ⊢
  have hhigh : (den : Int) * (2 * F.units c) ≤ 2 * num.natAbs + den * F.spacing c := by exact_mod_cast hhigh
  have hlow : (2 : Int) * num.natAbs ≤ den * (2 * F.units c) + den * F.spacing c := by exact_mod_cast hlow
  split
  · rw [Int.mul_neg, Int.mul_neg]
    omega
  · omega

/-! ## What is above a number -/

/-- the distance from a number to the next above it, which for a negative one is of lower magnitude -/
def gapAbove (x : Binary F) : Nat := if x.negative = true ∧ x.code ≠ 0 then F.spacing (x.code - 1) else F.spacing x.code

/-- a number of units is rounded to something above a number just if it is beyond the middle of the gap above it, or on
the middle if the number is odd -/
theorem rank_lt_round_iff (hx : x.isFinite = true) (s : Bool) (num : Int) :
    x.rank < (round s num 1 : Binary F).rank ↔
      2 * x.toUnits + x.gapAbove < 2 * num ∨ 2 * x.toUnits + x.gapAbove = 2 * num ∧ x.code % 2 = 1 := by
  have htop : x.code < F.top := of_decide_eq_true hx
  rw [rank_round s num Nat.one_pos]
  by_cases hneg : x.negative = true ∧ x.code ≠ 0
  · -- a negative number: the gap ends at the magnitude before
    obtain ⟨k, hk⟩ : ∃ k, x.code = k + 1 := ⟨x.code - 1, by omega⟩
    have hbeyond : k < F.nearest num.natAbs 1 ↔ F.Beyond k num.natAbs 1 := F.lt_nearest_iff Nat.one_pos (by omega)
    have hsucc := F.units_add_spacing k
    have hpos : 0 < F.spacing k := Nat.two_pow_pos _
    rw [BinaryFormat.Beyond, Nat.one_mul] at hbeyond
    rw [gapAbove, if_pos hneg, rank, toUnits, if_pos hneg.1, if_pos hneg.1, hk, Nat.add_sub_cancel]
    split <;> omega
  · have hbeyond : x.code < F.nearest num.natAbs 1 ↔ F.Beyond x.code num.natAbs 1 := F.lt_nearest_iff Nat.one_pos htop
    have hsucc := F.units_add_spacing x.code
    have hsign : x.rank = x.code ∧ x.toUnits = F.units x.code := by
      rcases Bool.eq_false_or_eq_true x.negative with hs | hs
      · have hcode : x.code = 0 := Classical.not_not.1 fun hc => hneg ⟨hs, hc⟩
        simp [rank, toUnits, hs, hcode, units_zero]
      · simp [rank, toUnits, hs]
    rw [BinaryFormat.Beyond, Nat.one_mul] at hbeyond
    rw [gapAbove, if_neg hneg, hsign.1, hsign.2]
    split <;> omega

theorem isFinite_round_iff (s : Bool) (num : Int) :
    (round s num 1 : Binary F).isFinite = true ↔ 2 * num.natAbs < F.overflow := by
  rw [← F.nearest_lt_top_iff]
  exact decide_eq_true_iff

theorem natAbs_toUnits (x : Binary F) : x.toUnits.natAbs = F.units x.code := by
  unfold toUnits
  split <;> omega

/-- no finite number is beyond the last one -/
theorem natAbs_toUnits_le (hx : x.isFinite = true) : x.toUnits.natAbs ≤ F.units (F.top - 1) := by
  have htop : x.code < F.top := of_decide_eq_true hx
  rw [natAbs_toUnits]
  exact F.units_le_iff.2 (Nat.le_sub_one_of_lt htop)

theorem natAbs_toUnits_lt (hx : x.isFinite = true) : x.toUnits.natAbs < F.units F.top := by
  rw [natAbs_toUnits]
  exact F.units_lt_iff.2 (of_decide_eq_true hx)

/-- the exact sum of two numbers is not so great that it overflows, and more than half way, or half way from an odd number,
from the first of them to the next above it -/
structure Advances (x w : Binary F) : Prop where
  finite : 2 * (x.toUnits + w.toUnits) < F.overflow
  above : x.gapAbove < 2 * w.toUnits ∨ x.gapAbove = 2 * w.toUnits ∧ x.code % 2 = 1

instance (x w : Binary F) : Decidable (Advances x w) :=
  decidable_of_iff (2 * (x.toUnits + w.toUnits) < F.overflow ∧
    (x.gapAbove < 2 * w.toUnits ∨ x.gapAbove = 2 * w.toUnits ∧ x.code % 2 = 1)) ⟨fun h => ⟨h.1, h.2⟩, fun h => ⟨h.1, h.2⟩⟩

/-- **A sum is finite and above its first summand just if it advances**, where the second is positive. -/
theorem advances_iff (hx : x.isFinite = true) (hw : w.isFinite = true) (hpos : zero.lt w = true) :
    (x + w).isFinite = true ∧ x.lt (x + w) = true ↔ Advances x w := by
  have hw' : 0 < w.toUnits := by
    have hle := toUnits_le_iff (x := w) (y := zero)
    have := (lt_iff.1 hpos).2.2
    rw [toUnits_of_zero (x := zero) rfl, rank_zero] at hle
    rw [rank_zero] at this
    omega
  -- no negative sum is as great as that
  have hlast := natAbs_toUnits_le hx
  have hlast' := natAbs_toUnits_lt hx
  have hoverflow : F.overflow = F.units (F.top - 1) + F.units F.top := rfl
  rw [add_finite hx hw, isFinite_round_iff, lt_iff, isNaN_round, (isFinite_iff.1 hx).1, rank_lt_round_iff hx]
  simp only [true_and]
  constructor
  · rintro ⟨hfinite, habove⟩
    exact ⟨by omega, by omega⟩
  · rintro ⟨hfinite, habove⟩
    exact ⟨by omega, by omega⟩

end Binary
end EventMatching
