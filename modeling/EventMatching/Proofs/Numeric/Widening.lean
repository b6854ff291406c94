/-
Numbers of one format as numbers of a wider one.

A mantissa that is doubled any number of times is a magnitude of the format (`exists_units`), and every magnitude is of
that kind (`units_eq`). So the finite numbers of a format are among those of any format with no fewer bits in either field
(`Widens.exists_units`): `convert` finds them there, finite ones and no others as finite numbers (`isFinite_convert`), and
back from there it gives the same bits, the sign of zero included (`convert_convert`).
-/
import EventMatching.Proofs.Numeric.Rounding

namespace EventMatching
namespace BinaryFormat

/-- a format with no fewer bits for the exponent and for the fraction -/
structure Widens (G F : BinaryFormat) : Prop where
  exponentBits : F.exponentBits ≤ G.exponentBits
  fractionBits : F.fractionBits ≤ G.fractionBits

theorem double_widens_single : double.Widens single := ⟨by decide, by decide⟩

/-! ## Magnitudes as doubled mantissas -/

variable (F : BinaryFormat)

theorem units_eq (c : Nat) : ∃ m d, m < 2 * F.step ∧ F.units c = m * Nat.pow 2 d := by
  have hpos := F.step_pos
  rcases Nat.lt_or_ge c F.step with hc | hc
  · exact ⟨c, 0, by omega, by rw [F.units_of_lt hc]; exact (Nat.mul_one c).symm⟩
  · have hmod := Nat.mod_lt c hpos
    exact ⟨F.step + c % F.step, c / F.step - 1, by omega, by rw [units, if_neg (Nat.not_lt.2 hc)]⟩

theorem exists_units (d : Nat) {m : Nat} (h : m ≤ 2 * F.step) : ∃ c, F.units c = m * Nat.pow 2 d := by
  induction d generalizing m with
  | zero =>
    rcases Nat.lt_or_ge m F.step with hm | hm
    · exact ⟨m, by rw [F.units_of_lt hm]; exact (Nat.mul_one m).symm⟩
    · exact ⟨_, F.units_normal 0 hm h⟩
  | succ d ih =>
    rcases Nat.lt_or_ge m F.step with hm | hm
    · -- a short mantissa takes one doubling in
      obtain ⟨c, hc⟩ := ih (m := m * 2) (by omega)
      refine ⟨c, hc.trans ?_⟩
      calc m * 2 * Nat.pow 2 d
        _ = m * (Nat.pow 2 d * 2) := by rw [Nat.mul_assoc, Nat.mul_comm 2]
        _ = m * Nat.pow 2 (d + 1) := rfl
    · exact ⟨_, F.units_normal (d + 1) hm h⟩

theorem two_pow_exponentBits : Nat.pow 2 F.exponentBits = 2 * Nat.pow 2 (F.exponentBits - 1) ∧
    2 ≤ Nat.pow 2 (F.exponentBits - 1) := by
  have hbits := F.one_lt_exponentBits
  obtain ⟨e, he⟩ : ∃ e, F.exponentBits = e + 1 := ⟨F.exponentBits - 1, by omega⟩
  rw [he, Nat.add_sub_cancel]
  exact ⟨Nat.pow_succ', Nat.le_self_pow (by omega) 2⟩

/-- the magnitude that infinity would have: one step beyond the greatest finite one -/
theorem units_top : F.units F.top = Nat.pow 2 (F.fractionBits + (Nat.pow 2 F.exponentBits - 2)) := by
  obtain ⟨htwo, htwo'⟩ := F.two_pow_exponentBits
  have htop : F.top = (Nat.pow 2 F.exponentBits - 2) * F.step + F.step := by
    rw [top, ← Nat.succ_mul]
    congr 1
    omega
  rw [htop, F.units_normal _ (Nat.le_refl _) (by have := F.step_pos; omega)]
  exact (Nat.pow_add 2 _ _).symm

theorem one_pos : 0 < F.one := Nat.two_pow_pos _

variable {F} {G : BinaryFormat}

/-! ## Wider formats -/

/-- a wider format has at least as many exponents on either side of that of one -/
theorem Widens.half_range_le (h : G.Widens F) : Nat.pow 2 (F.exponentBits - 1) ≤ Nat.pow 2 (G.exponentBits - 1) :=
  Nat.pow_le_pow_right (by omega) (Nat.sub_le_sub_right h.exponentBits 1)

/-- a wider format has at least as many units in the number one, a power of two of them for each of the other's -/
theorem Widens.one_eq (h : G.Widens F) : G.one = F.one * Nat.pow 2 (G.scale - F.scale) := by
  have hscale : F.scale ≤ G.scale := by
    have := h.half_range_le
    have := h.fractionBits
    unfold scale
    omega
  calc G.one
    _ = Nat.pow 2 (F.scale + (G.scale - F.scale)) := by rw [one, Nat.add_sub_cancel' hscale]
    _ = F.one * Nat.pow 2 (G.scale - F.scale) := Nat.pow_add 2 _ _

/-- a wider format reaches at least as far -/
theorem Widens.units_top_le (h : G.Widens F) : F.units F.top * Nat.pow 2 (G.scale - F.scale) ≤ G.units G.top := by
  have hrange := h.half_range_le
  obtain ⟨hF, hF'⟩ := F.two_pow_exponentBits
  obtain ⟨hG, hG'⟩ := G.two_pow_exponentBits
  have hbits := h.fractionBits
  rw [units_top, units_top, hF, hG]
  calc Nat.pow 2 (F.fractionBits + (2 * Nat.pow 2 (F.exponentBits - 1) - 2)) * Nat.pow 2 (G.scale - F.scale)
    _ = Nat.pow 2 (F.fractionBits + (2 * Nat.pow 2 (F.exponentBits - 1) - 2) + (G.scale - F.scale)) :=
      (Nat.pow_add 2 _ _).symm
    _ ≤ Nat.pow 2 (G.fractionBits + (2 * Nat.pow 2 (G.exponentBits - 1) - 2)) := by
      refine Nat.pow_le_pow_right (by omega) ?_
      unfold scale
      omega

/-- **Every finite magnitude is one of a wider format.** -/
theorem Widens.exists_units (h : G.Widens F) {c : Nat} (hc : c < F.top) :
    ∃ c', c' < G.top ∧ G.units c' * F.one = F.units c * G.one := by
  obtain ⟨m, d, hm, hunits⟩ := F.units_eq c
  have hstep : F.step ≤ G.step := Nat.pow_le_pow_right (by omega) h.fractionBits
  obtain ⟨c', hc'⟩ := G.exists_units (d + (G.scale - F.scale)) (m := m) (by omega)
  have hsame : G.units c' = F.units c * Nat.pow 2 (G.scale - F.scale) := by
    rw [hc', hunits, Nat.mul_assoc]
    exact congrArg (m * ·) (Nat.pow_add 2 _ _)
  refine ⟨c', G.units_lt_iff.1 ?_, ?_⟩
  · calc G.units c'
      _ = F.units c * Nat.pow 2 (G.scale - F.scale) := hsame
      _ < F.units F.top * Nat.pow 2 (G.scale - F.scale) :=
        Nat.mul_lt_mul_of_pos_right (F.units_lt_iff.2 hc) (Nat.two_pow_pos _)
      _ ≤ G.units G.top := h.units_top_le
  · rw [hsame, h.one_eq, Nat.mul_assoc, Nat.mul_comm F.one]

end BinaryFormat

namespace Binary

open BinaryFormat

variable {F G : BinaryFormat} {x : Binary F}

/-- rounding a multiple of a number keeps its sign, that of zero included, and rounds its magnitude -/
theorem round_toUnits_mul (x : Binary F) {k : Nat} (hk : 0 < k) (den : Nat) :
    (round x.negative (x.toUnits * k) den : Binary G) =
      ofCode x.negative (G.nearest (F.units x.code * k) den) (G.nearest_le_top _ _) := by
  have hmagnitude : (x.toUnits * k).natAbs = F.units x.code * k := by
    rw [Int.natAbs_mul, Int.natAbs_natCast, toUnits]
    split
    · rw [Int.natAbs_neg, Int.natAbs_natCast]
    · rw [Int.natAbs_natCast]
  have hsign : (if x.toUnits * k = 0 then x.negative else decide (x.toUnits * k < 0)) = x.negative := by
    split
    · rfl
    · rename_i hne
      have hk : (0 : Int) < k := by omega
      have hunits : (0 : Int) ≤ F.units x.code * k := Int.mul_nonneg (by omega) (by omega)
      cases hneg : x.negative with
      | true =>
        have hto : x.toUnits = -(F.units x.code : Int) := by rw [toUnits, if_pos hneg]
        rw [hto, Int.neg_mul] at hne ⊢
        exact decide_eq_true (by omega)
      | false =>
        have hto : x.toUnits = F.units x.code := by rw [toUnits, if_neg (by simp [hneg])]
        rw [hto]
        exact decide_eq_false (by omega)
  simp only [round, hsign, hmagnitude]

theorem convert_of_isFinite (hx : x.isFinite = true) :
    (x.convert : Binary G) =
      ofCode x.negative (G.nearest (F.units x.code * G.one) F.one) (G.nearest_le_top _ _) := by
  obtain ⟨hnan, hinfinite⟩ := isFinite_iff.1 hx
  rw [convert, hnan, hinfinite, if_neg Bool.false_ne_true, if_neg Bool.false_ne_true, round_toUnits_mul x G.one_pos]

/-- in a wider format a finite number is finite, and has its sign and its exact magnitude -/
theorem exists_convert (h : G.Widens F) (hx : x.isFinite = true) :
    ∃ c, ∃ hc : c < G.top, (x.convert : Binary G) = ofCode x.negative c (Nat.le_of_lt hc) ∧
      G.units c * F.one = F.units x.code * G.one := by
  obtain ⟨c, hc, hunits⟩ := h.exists_units (of_decide_eq_true hx)
  refine ⟨c, hc, ?_, hunits⟩
  have hnearest : G.nearest (F.units x.code * G.one) F.one = c := by
    rw [← hunits]
    exact G.nearest_units F.one_pos (Nat.le_of_lt hc)
  simp only [convert_of_isFinite hx, hnearest]

/-- **A wider format has the finite numbers as finite ones**, and no others. -/
theorem isFinite_convert (h : G.Widens F) (x : Binary F) : (x.convert : Binary G).isFinite = x.isFinite := by
  rcases x.kinds with hnan | ⟨s, rfl⟩ | hx
  · rw [convert, if_pos hnan]
    have hx : x.isFinite = false := by
      rw [← Bool.not_eq_true, isFinite_iff, hnan]
      simp
    rw [hx, ← Bool.not_eq_true, isFinite_iff, isNaN_nan]
    simp
  · have hinfinite (H : BinaryFormat) : (infinity s : Binary H).isFinite = false := by
      rw [← Bool.not_eq_true, isFinite_iff, isInfinite_infinity]
      simp
    rw [convert, isNaN_infinity, if_neg Bool.false_ne_true, if_pos (isInfinite_infinity s), hinfinite]
    exact hinfinite G
  · obtain ⟨c, hc, hconvert, -⟩ := exists_convert h hx
    rw [hx, hconvert]
    exact decide_eq_true hc

/-- **Widening loses nothing**: rounding back gives the same bits. -/
theorem convert_convert (h : G.Widens F) (hx : x.isFinite = true) : ((x.convert : Binary G).convert : Binary F) = x := by
  obtain ⟨c, hc, hconvert, hunits⟩ := exists_convert h hx
  have hwide : (ofCode x.negative c (Nat.le_of_lt hc) : Binary G).isFinite = true := decide_eq_true hc
  have hback : F.nearest (G.units c * F.one) G.one = x.code := by
    rw [hunits]
    exact F.nearest_units G.one_pos (Nat.le_of_lt (of_decide_eq_true hx))
  rw [hconvert, convert_of_isFinite hwide]
  simp only [ofCode, hback]

end Binary
end EventMatching
