/-
Numbers that count as one number.

Two bit patterns are `Alike` if they have one canonical pattern: they are equal as numbers, or both are no numbers. So
the two zeros are alike, and any two NaN. The order does not tell alike numbers apart (`le_congr`),
and sums of alike numbers are alike (`Alike.add`), although a sum keeps the sign of zero.
-/
import EventMatching.Numeric.Arithmetic

namespace EventMatching
namespace Binary

variable {F : BinaryFormat}

/-- the two patterns stand for one number, or both for none -/
def Alike (x y : Binary F) : Prop := x.canonical = y.canonical

theorem Alike.refl (x : Binary F) : Alike x x := rfl

theorem Alike.symm {x y : Binary F} (h : Alike x y) : Alike y x := Eq.symm h

theorem Alike.trans {x y z : Binary F} (h : Alike x y) (h' : Alike y z) : Alike x z := Eq.trans h h'

/-! ## Ranks -/

@[simp] theorem isNaN_zero : (zero : Binary F).isNaN = false := by simp [zero, ofCode, isNaN]

@[simp] theorem rank_zero : (zero : Binary F).rank = 0 := by simp [zero, ofCode, rank]

@[simp] theorem isNaN_nan : (nan : Binary F).isNaN = true := by
  have h2 : 2 ≤ F.step := Nat.le_self_pow (Nat.pos_iff_ne_zero.1 F.fractionBits_pos) 2
  have : 0 < F.step / 2 := Nat.div_pos h2 (by omega)
  exact decide_eq_true (Nat.lt_add_of_pos_right this)

theorem beq_zero_iff {x : Binary F} : x == zero ↔ x.code = 0 := by
  rw [beq_iff, rank_zero]
  refine ⟨fun h => ?_, fun h => ⟨by simp [isNaN, h], isNaN_zero, by simp [rank, h]⟩⟩
  have := h.2.2
  unfold rank at this
  split at this <;> omega

/-- a finite number is equal to itself -/
theorem beq_self_of_isFinite {x : Binary F} (h : x.isFinite = true) : x == x := by
  have h : x.code < F.top := of_decide_eq_true h
  exact beq_self.2 (decide_eq_false (Nat.not_lt.2 (Nat.le_of_lt h)))

/-- equal ranks mean one pattern, unless both are zeros -/
theorem eq_or_zero_of_rank_eq {x y : Binary F} (h : x.rank = y.rank) : x = y ∨ (x.code = 0 ∧ y.code = 0) := by
  obtain ⟨s, c, hc⟩ := x
  obtain ⟨s', c', hc'⟩ := y
  simp only [rank] at h
  cases s <;> cases s' <;> simp only [Bool.false_eq_true, if_true, if_false] at h
  · left; simp only [mk.injEq, true_and]; omega
  · right; constructor <;> simp only <;> omega
  · right; constructor <;> simp only <;> omega
  · left; simp only [mk.injEq, true_and]; omega

theorem alike_of_zero {x y : Binary F} (hx : x.code = 0) (hy : y.code = 0) : Alike x y := by
  have nx : x.isNaN = false := by simp [isNaN, hx]
  have ny : y.isNaN = false := by simp [isNaN, hy]
  simp [Alike, canonical, unsignedZero, nx, ny, beq_zero_iff.2 hx, beq_zero_iff.2 hy]

theorem alike_of_beq {x y : Binary F} (h : x == y) : Alike x y := by
  rcases eq_or_zero_of_rank_eq (beq_iff.1 h).2.2 with rfl | ⟨hx, hy⟩
  · rfl
  · exact alike_of_zero hx hy

theorem alike_of_isNaN {x y : Binary F} (hx : x.isNaN = true) (hy : y.isNaN = true) : Alike x y := by
  simp [Alike, canonical, hx, hy]

theorem isNaN_canonical (x : Binary F) : x.canonical.isNaN = x.isNaN := by
  unfold canonical unsignedZero
  split
  · simp [*]
  · split
    · simp_all
    · rfl

theorem rank_canonical {x : Binary F} (h : x.isNaN = false) : x.canonical.rank = x.rank := by
  unfold canonical unsignedZero
  rw [h]
  simp only [Bool.false_eq_true, if_false]
  split
  · rename_i hz
    rw [(beq_iff.1 hz).2.2]
  · rfl

/-- **What makes numbers alike**: both are NaN, or they are equal as numbers. -/
theorem alike_iff {x y : Binary F} : Alike x y ↔ (x.isNaN = true ∧ y.isNaN = true) ∨ x == y := by
  constructor
  · intro h
    have hn : x.isNaN = y.isNaN := by rw [← isNaN_canonical x, ← isNaN_canonical y, h]
    cases hx : x.isNaN with
    | true => exact Or.inl ⟨rfl, hn ▸ hx⟩
    | false =>
      have hy : y.isNaN = false := hn ▸ hx
      right
      rw [beq_iff]
      refine ⟨hx, hy, ?_⟩
      rw [← rank_canonical hx, ← rank_canonical hy, h]
  · rintro (⟨hx, hy⟩ | h)
    · exact alike_of_isNaN hx hy
    · exact alike_of_beq h

theorem Alike.isNaN_eq {x y : Binary F} (h : Alike x y) : x.isNaN = y.isNaN := by
  rw [← isNaN_canonical x, ← isNaN_canonical y, h]

theorem Alike.rank_eq {x y : Binary F} (h : Alike x y) (hx : x.isNaN = false) : x.rank = y.rank := by
  have hy : y.isNaN = false := h.isNaN_eq ▸ hx
  rw [← rank_canonical hx, ← rank_canonical hy, h]

/-! ## Comparisons -/

/-- the order does not tell alike numbers apart -/
theorem le_congr {x x' y y' : Binary F} (hx : Alike x x') (hy : Alike y y') : x.le y = x'.le y' := by
  unfold le
  rw [← hx.isNaN_eq, ← hy.isNaN_eq]
  cases hnx : x.isNaN with
  | true => rfl
  | false =>
    cases hny : y.isNaN with
    | true => rfl
    | false => rw [hx.rank_eq hnx, hy.rank_eq hny]

/-! ## Sums -/

theorem top_pos (F : BinaryFormat) : 0 < F.top := by
  have h2 : 2 ≤ Nat.pow 2 F.exponentBits := Nat.le_self_pow (by have := F.one_lt_exponentBits; omega) 2
  exact Nat.mul_pos (by omega) F.step_pos

theorem isInfinite_of_zero {x : Binary F} (h : x.code = 0) : x.isInfinite = false := by
  have := top_pos F
  simp only [isInfinite, h, beq_eq_false_iff_ne, ne_eq]
  omega

theorem units_zero (F : BinaryFormat) : F.units 0 = 0 := by simp [BinaryFormat.units, F.step_pos]

theorem toUnits_of_zero {x : Binary F} (h : x.code = 0) : x.toUnits = 0 := by
  simp [toUnits, h, units_zero]

/-- the sign that `round` gives to zero makes no difference to the number -/
theorem round_alike (a b : Bool) (num : Int) (den : Nat) : Alike (round a num den : Binary F) (round b num den) := by
  unfold round
  by_cases h : num = 0
  · subst h
    have hz : F.nearest 0 den = 0 := by
      have hf : F.floorCode 0 = 0 := by simp [BinaryFormat.floorCode]
      simp only [BinaryFormat.nearest, Nat.zero_div, Nat.mul_zero, hf]
      split
      · simp
      · split <;> simp_all
    apply alike_of_zero <;> simp [ofCode, hz]
  · simp only [h, if_false]
    rfl

/-- sums of alike numbers are alike -/
theorem Alike.add {x x' y y' : Binary F} (hx : Alike x x') (hy : Alike y y') : Alike (x + y) (x' + y') := by
  show Alike (Binary.add x y) (Binary.add x' y')
  unfold Binary.add
  rw [← hx.isNaN_eq, ← hy.isNaN_eq]
  cases hnx : x.isNaN with
  | true => rfl
  | false =>
    cases hny : y.isNaN with
    | true => rfl
    | false =>
      simp only [Bool.or_self, Bool.false_eq_true, if_false]
      rcases eq_or_zero_of_rank_eq (hx.rank_eq hnx) with rfl | ⟨hx0, hx0'⟩ <;>
        rcases eq_or_zero_of_rank_eq (hy.rank_eq hny) with rfl | ⟨hy0, hy0'⟩
      · rfl
      · simp only [isInfinite_of_zero hy0, isInfinite_of_zero hy0', toUnits_of_zero hy0, toUnits_of_zero hy0']
        split
        · rfl
        · exact round_alike _ _ _ _
      · simp only [isInfinite_of_zero hx0, isInfinite_of_zero hx0', toUnits_of_zero hx0, toUnits_of_zero hx0',
          Bool.false_eq_true, if_false]
        split
        · rfl
        · exact round_alike _ _ _ _
      · simp only [isInfinite_of_zero hx0, isInfinite_of_zero hx0', toUnits_of_zero hx0, toUnits_of_zero hx0',
          isInfinite_of_zero hy0, isInfinite_of_zero hy0', toUnits_of_zero hy0, toUnits_of_zero hy0',
          Bool.false_eq_true, if_false]
        exact round_alike _ _ _ _

end Binary
end EventMatching
