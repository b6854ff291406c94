/-
Rounding to the grid of a format.

From one code to the next the magnitude grows by the step of its exponent (`units_succ`), so codes and magnitudes have one
order. `floorCode` finds the code below a whole number of units (`floorCode_spec`), and `nearest` reaches a code just from
the middle between it and the one before (`lt_nearest_iff`). Hence rounding keeps every number of the format as it is
(`nearest_units`) and never turns two quotients round (`nearest_le_nearest`), and the same holds of signed sums of units
(`rank_round_toUnits`, `rank_round_le`).
-/
import EventMatching.Proofs.Numeric.Alike

namespace EventMatching
namespace BinaryFormat

variable (F : BinaryFormat)

/-! ## The grid -/

theorem units_of_lt {c : Nat} (h : c < F.step) : F.units c = c := by rw [units, if_pos h]

/-- the code `d * step + q` stands for `q * 2^d` units, if `q` has the bits of a mantissa, or is one more than the last -/
theorem units_normal (d : Nat) {q : Nat} (h : F.step ≤ q) (h' : q ≤ 2 * F.step) :
    F.units (d * F.step + q) = q * Nat.pow 2 d := by
  have hpos := F.step_pos
  have hge : ¬d * F.step + q < F.step := by
    have := Nat.le_add_left q (d * F.step)
    omega
  rw [units, if_neg hge]
  rcases Nat.lt_or_ge q (2 * F.step) with hq | hq
  · have hdiv : (d * F.step + q) / F.step = d + 1 := by
      rw [Nat.add_comm, Nat.add_mul_div_right _ _ hpos, Nat.div_eq_of_lt_le (by omega) (by omega) (k := 1), Nat.add_comm]
    have hmod : (d * F.step + q) % F.step = q - F.step := by
      rw [Nat.add_comm, Nat.add_mul_mod_self_right, Nat.mod_eq_sub_mod h, Nat.mod_eq_of_lt (by omega)]
    rw [hdiv, hmod, Nat.add_sub_cancel, Nat.add_sub_cancel' h]
  · obtain rfl : q = 2 * F.step := Nat.le_antisymm h' hq
    have hsum : d * F.step + 2 * F.step = (d + 2) * F.step := (Nat.add_mul d 2 F.step).symm
    rw [hsum, Nat.mul_mod_left, Nat.mul_div_cancel _ hpos]
    calc (F.step + 0) * Nat.pow 2 (d + 1)
      _ = F.step * (Nat.pow 2 d * 2) := rfl
      _ = 2 * F.step * Nat.pow 2 d := by rw [Nat.mul_comm 2 F.step, Nat.mul_assoc, Nat.mul_comm 2]

/-- magnitudes of adjacent codes are one step of the exponent apart -/
theorem units_succ (c : Nat) : F.units (c + 1) = F.units c + Nat.pow 2 (c / F.step - 1) := by
  have hpos := F.step_pos
  rcases Nat.lt_or_ge c F.step with hc | hc
  · rw [Nat.div_eq_of_lt hc, F.units_of_lt hc]
    rcases Nat.lt_or_ge (c + 1) F.step with hc' | hc'
    · exact F.units_of_lt hc'
    · have := F.units_normal 0 hc' (by omega)
      rw [Nat.zero_mul, Nat.zero_add] at this
      rw [this]
      exact Nat.mul_one _
  · -- the code is `d` exponents and a mantissa `q`
    have hdiv : 1 ≤ c / F.step := (Nat.le_div_iff_mul_le hpos).2 (by omega)
    have hmod := Nat.mod_lt c hpos
    obtain ⟨d, hd⟩ : ∃ d, c / F.step = d + 1 := ⟨c / F.step - 1, by omega⟩
    have hc : c = d * F.step + (F.step + c % F.step) := by
      have := Nat.div_add_mod c F.step
      rw [hd, Nat.mul_comm, Nat.succ_mul] at this
      omega
    have hlow := F.units_normal d (q := F.step + c % F.step) (by omega) (by omega)
    have hhigh := F.units_normal d (q := F.step + c % F.step + 1) (by omega) (by omega)
    rw [← Nat.add_assoc, ← hc] at hhigh
    rw [← hc] at hlow
    rw [hhigh, hlow, hd, Nat.add_sub_cancel, Nat.succ_mul]

theorem units_lt_succ (c : Nat) : F.units c < F.units (c + 1) := by
  rw [units_succ]
  exact Nat.lt_add_of_pos_right (Nat.two_pow_pos _)

/-- magnitudes are in the order of their codes -/
theorem units_lt_iff {a b : Nat} : F.units a < F.units b ↔ a < b := by
  have hmono : ∀ n c, F.units c < F.units (c + n + 1) := by
    intro n c
    induction n with
    | zero => exact F.units_lt_succ c
    | succ n ih => exact Nat.lt_trans ih (F.units_lt_succ _)
  have hlt : ∀ {a b : Nat}, a < b → F.units a < F.units b := by
    intro a b h
    have := hmono (b - a - 1) a
    rwa [show a + (b - a - 1) + 1 = b by omega] at this
  constructor
  · intro h
    rcases Nat.lt_trichotomy a b with hab | rfl | hab
    · exact hab
    · exact absurd h (Nat.lt_irrefl _)
    · exact absurd h (Nat.lt_asymm (hlt hab))
  · exact hlt

theorem units_le_iff {a b : Nat} : F.units a ≤ F.units b ↔ a ≤ b := by
  rw [← Nat.not_lt, ← Nat.not_lt, units_lt_iff]

/-! ## The code below a number -/

/-- `floorCode` keeps as many leading bits as a mantissa has -/
theorem floorCode_spec (n : Nat) : F.units (F.floorCode n) ≤ n ∧ n < F.units (F.floorCode n + 1) := by
  obtain ⟨d, hd⟩ : ∃ d, n.log2 - F.fractionBits = d := ⟨_, rfl⟩
  have hunit : 0 < Nat.pow 2 d := Nat.two_pow_pos d
  have hcode : F.floorCode n = d * F.step + n / Nat.pow 2 d := by rw [floorCode, hd]
  -- the leading bits are those of a mantissa, or the number is small and all of them are kept
  have hmantissa : d = 0 ∧ n < F.step ∨ F.step ≤ n / Nat.pow 2 d ∧ n / Nat.pow 2 d < 2 * F.step := by
    rcases Nat.lt_or_ge n.log2 F.fractionBits with hlog | hlog
    · exact .inl ⟨by omega, Nat.lt_of_lt_of_le Nat.lt_log2_self (Nat.pow_le_pow_right (by omega) hlog)⟩
    · have hne : n ≠ 0 := by
        rintro rfl
        have := F.fractionBits_pos
        rw [Nat.log2_zero] at hlog
        omega
      have hsum : F.fractionBits + d = n.log2 := by omega
      have hleading : F.step * Nat.pow 2 d = Nat.pow 2 n.log2 := by
        rw [← hsum]
        exact (Nat.pow_add 2 F.fractionBits d).symm
      have hle : F.step * Nat.pow 2 d ≤ n := by
        rw [hleading]
        exact Nat.log2_self_le hne
      have hlt : n < 2 * F.step * Nat.pow 2 d := calc
        n < Nat.pow 2 n.log2 * 2 := Nat.lt_log2_self
        _ = 2 * F.step * Nat.pow 2 d := by rw [← hleading, Nat.mul_comm, Nat.mul_assoc]
      exact .inr ⟨(Nat.le_div_iff_mul_le hunit).2 hle, (Nat.div_lt_iff_lt_mul hunit).2 hlt⟩
  rw [hcode]
  rcases hmantissa with ⟨rfl, hsmall⟩ | ⟨hge, hlt⟩
  · have h1 : n / Nat.pow 2 0 = n := Nat.div_one n
    rw [h1, Nat.zero_mul, Nat.zero_add, F.units_of_lt hsmall]
    refine ⟨Nat.le_refl n, ?_⟩
    have := F.units_lt_succ n
    rwa [F.units_of_lt hsmall] at this
  · rw [F.units_normal d hge (by omega), Nat.add_assoc, F.units_normal d (by omega) (by omega)]
    refine ⟨Nat.div_mul_le_self n _, ?_⟩
    rw [Nat.succ_mul]
    exact Nat.lt_div_mul_add hunit

/-- only one code lies just below a number -/
theorem floorCode_eq {n c : Nat} (h : F.units c ≤ n) (h' : n < F.units (c + 1)) : F.floorCode n = c := by
  obtain ⟨hle, hlt⟩ := F.floorCode_spec n
  have h₁ := F.units_lt_iff.1 (Nat.lt_of_le_of_lt hle h')
  have h₂ := F.units_lt_iff.1 (Nat.lt_of_le_of_lt h hlt)
  omega

/-! ## The nearest code -/

/-- whether a quotient is beyond the code `k`, that is, above the middle between `k` and the next code, or on it if
the next code is even -/
def Beyond (k num den : Nat) : Prop :=
  den * (F.units k + F.units (k + 1)) < 2 * num ∨ den * (F.units k + F.units (k + 1)) = 2 * num ∧ k % 2 = 1

/-- `nearest` leaves a code behind exactly if the quotient is beyond it -/
theorem lt_nearest_iff {k num den : Nat} (hden : 0 < den) (hk : k < F.top) :
    k < F.nearest num den ↔ F.Beyond k num den := by
  obtain ⟨low, hlow⟩ : ∃ low, F.floorCode (num / den) = low := ⟨_, rfl⟩
  obtain ⟨hle, hlt⟩ := hlow ▸ F.floorCode_spec (num / den)
  have hle : den * F.units low ≤ num := by
    rw [Nat.mul_comm]
    exact (Nat.le_div_iff_mul_le hden).1 hle
  have hlt : num < den * F.units (low + 1) := by
    rw [Nat.mul_comm]
    exact (Nat.div_lt_iff_lt_mul hden).1 hlt
  simp only [nearest, hlow, Nat.lt_min, and_iff_left hk, Beyond, Nat.mul_add]
  rcases Nat.lt_trichotomy k low with hbelow | rfl | habove
  · -- the middle after `k` is below the floor
    have h₁ : den * F.units k < den * F.units low := Nat.mul_lt_mul_of_pos_left (F.units_lt_iff.2 hbelow) hden
    have h₂ : den * F.units (k + 1) ≤ den * F.units low := Nat.mul_le_mul_left den (F.units_le_iff.2 hbelow)
    refine iff_of_true ?_ (.inl (by omega))
    split
    · exact hbelow
    · split <;> omega
  · split
    · omega
    · split <;> omega
  · -- the middle after `k` is above the next code
    have h₁ : den * F.units (low + 1) ≤ den * F.units k := Nat.mul_le_mul_left den (F.units_le_iff.2 habove)
    have h₂ : den * F.units k ≤ den * F.units (k + 1) := Nat.mul_le_mul_left den (Nat.le_of_lt (F.units_lt_succ k))
    refine iff_of_false ?_ (by omega)
    split
    · omega
    · split <;> omega

/-- a quotient beyond a code stays beyond it as it grows -/
theorem Beyond.mono {k num den num' den' : Nat} (h : F.Beyond k num den) (hden : 0 < den) (hden' : 0 < den')
    (hle : num * den' ≤ num' * den) : F.Beyond k num' den' := by
  unfold Beyond at h ⊢
  generalize F.units k + F.units (k + 1) = middle at h ⊢
  -- both middles, over the common denominator
  have hcross : 2 * num * den' ≤ den * (2 * num') := calc
    2 * num * den' = 2 * (num * den') := Nat.mul_assoc _ _ _
    _ ≤ 2 * (num' * den) := Nat.mul_le_mul_left 2 hle
    _ = den * (2 * num') := by rw [← Nat.mul_assoc, Nat.mul_comm]
  have hmiddle : den * middle * den' = den * (den' * middle) := by rw [Nat.mul_assoc, Nat.mul_comm middle]
  rcases h with hlt | ⟨heq, hodd⟩
  · left
    have := Nat.lt_of_lt_of_le (Nat.mul_lt_mul_of_pos_right hlt hden') hcross
    rw [hmiddle] at this
    exact Nat.lt_of_mul_lt_mul_left this
  · rw [← heq, hmiddle] at hcross
    rcases Nat.lt_or_eq_of_le (Nat.le_of_mul_le_mul_left hcross hden) with hlt | heq
    · exact .inl hlt
    · exact .inr ⟨heq, hodd⟩

/-- **Rounding is monotone**: it never turns two quotients round. -/
theorem nearest_le_nearest {num den num' den' : Nat} (hden : 0 < den) (hden' : 0 < den')
    (h : num * den' ≤ num' * den) : F.nearest num den ≤ F.nearest num' den' := by
  refine Nat.le_of_not_lt fun hlt => ?_
  have htop : F.nearest num' den' < F.top := Nat.lt_of_lt_of_le hlt (F.nearest_le_top _ _)
  have := (F.lt_nearest_iff hden htop).1 hlt
  exact Nat.lt_irrefl _ ((F.lt_nearest_iff hden' htop).2 (this.mono F hden hden' h))

/-- **A number of the format is rounded to itself.** -/
theorem nearest_units {c den : Nat} (hden : 0 < den) (hc : c ≤ F.top) : F.nearest (F.units c * den) den = c := by
  rw [nearest, Nat.mul_div_cancel _ hden, F.floorCode_eq (Nat.le_refl _) (F.units_lt_succ c)]
  have hstep : den * F.units c < den * F.units (c + 1) := Nat.mul_lt_mul_of_pos_left (F.units_lt_succ c) hden
  rw [Nat.mul_comm (F.units c), Nat.mul_add, if_pos (by omega), Nat.min_eq_left hc]

end BinaryFormat

namespace Binary

variable {F : BinaryFormat} {x y : Binary F}

/-! ## The three kinds of patterns -/

theorem isNaN_ofCode (s : Bool) {c : Nat} (h : c ≤ F.top) : (ofCode s c h).isNaN = false :=
  decide_eq_false (Nat.not_lt.2 h)

theorem code_le_top (h : x.isNaN = false) : x.code ≤ F.top := Nat.not_lt.1 (of_decide_eq_false h)

theorem isFinite_iff : x.isFinite = true ↔ x.isNaN = false ∧ x.isInfinite = false := by
  simp only [isFinite, isNaN, isInfinite, decide_eq_true_eq, decide_eq_false_iff_not, beq_eq_false_iff_ne]
  omega

theorem eq_infinity (h : x.isInfinite = true) : x = infinity x.negative := by
  obtain ⟨s, c, hc⟩ := x
  obtain rfl : c = F.top := beq_iff_eq.1 h
  rfl

/-- a pattern is no number, an infinity or a finite number -/
theorem kinds (x : Binary F) : x.isNaN = true ∨ (∃ s, x = infinity s) ∨ x.isFinite = true := by
  rcases Bool.eq_false_or_eq_true x.isNaN with hn | hn
  · exact .inl hn
  · rcases Bool.eq_false_or_eq_true x.isInfinite with hi | hi
    · exact .inr (.inl ⟨_, eq_infinity hi⟩)
    · exact .inr (.inr (isFinite_iff.2 ⟨hn, hi⟩))

@[simp] theorem isNaN_infinity (s : Bool) : (infinity s : Binary F).isNaN = false := isNaN_ofCode s (Nat.le_refl _)

@[simp] theorem isInfinite_infinity (s : Bool) : (infinity s : Binary F).isInfinite = true := beq_self_eq_true F.top

@[simp] theorem rank_infinity (s : Bool) : (infinity s : Binary F).rank = if s then -(F.top : Int) else F.top := rfl

/-- finite numbers are between the infinities -/
theorem rank_lt_top (h : x.isFinite = true) : -(F.top : Int) < x.rank ∧ x.rank < F.top := by
  have : x.code < F.top := of_decide_eq_true h
  unfold rank
  split <;> omega

/-! ## Signed numbers -/

@[simp] theorem isNaN_round (s : Bool) (num : Int) (den : Nat) : (round s num den : Binary F).isNaN = false :=
  isNaN_ofCode _ _

theorem nearest_zero {den : Nat} (hden : 0 < den) : F.nearest 0 den = 0 := by
  have := F.nearest_units hden (Nat.zero_le F.top)
  rwa [units_zero, Nat.zero_mul] at this

/-- a rounded number has the sign of the exact one -/
theorem rank_round (s : Bool) (num : Int) {den : Nat} (hden : 0 < den) :
    (round s num den : Binary F).rank = if num < 0 then -(F.nearest num.natAbs den : Int) else F.nearest num.natAbs den := by
  rcases Int.lt_trichotomy num 0 with hneg | rfl | hpos
  · simp [round, rank, ofCode, hneg, Int.ne_of_lt hneg]
  · simp [round, rank, ofCode, nearest_zero hden]
  · have h : ¬num < 0 := by omega
    simp [round, rank, ofCode, h, (Int.ne_of_lt hpos).symm]

/-- **Rounding is monotone** on signed numbers. -/
theorem rank_round_le (s s' : Bool) {num num' : Int} {den : Nat} (hden : 0 < den) (h : num ≤ num') :
    (round s num den : Binary F).rank ≤ (round s' num' den : Binary F).rank := by
  rw [rank_round s num hden, rank_round s' num' hden]
  split
  · split
    · have hle : num'.natAbs ≤ num.natAbs := by omega
      have := F.nearest_le_nearest hden hden (Nat.mul_le_mul_right den hle)
      omega
    · omega
  · have hle : num.natAbs ≤ num'.natAbs := by omega
    have := F.nearest_le_nearest hden hden (Nat.mul_le_mul_right den hle)
    split <;> omega

/-- **A number of the format is rounded to itself**, up to the sign of zero. -/
theorem rank_round_toUnits (s : Bool) (h : x.isNaN = false) :
    (round s x.toUnits 1 : Binary F).rank = x.rank := by
  have hcode := F.nearest_units Nat.one_pos (code_le_top h)
  rw [Nat.mul_one] at hcode
  have hpos : 0 < F.units x.code ∨ x.code = 0 := by
    rcases Nat.eq_zero_or_pos x.code with h | h
    · exact .inr h
    · left
      have := F.units_lt_iff.2 h
      omega
  rw [rank_round s _ Nat.one_pos]
  unfold toUnits rank
  split
  · rw [Int.natAbs_neg, Int.natAbs_natCast, hcode]
    split <;> omega
  · rw [Int.natAbs_natCast, hcode, if_neg (by omega)]

/-- exact values are in the order of the ranks -/
theorem toUnits_le_iff : x.toUnits ≤ y.toUnits ↔ x.rank ≤ y.rank := by
  have hxy := F.units_le_iff (a := x.code) (b := y.code)
  have hyx := F.units_le_iff (a := y.code) (b := x.code)
  have hx := F.units_le_iff (a := x.code) (b := 0)
  have hy := F.units_le_iff (a := y.code) (b := 0)
  rw [units_zero] at hx hy
  unfold toUnits rank
  split <;> split <;> omega

end Binary
end EventMatching
