/-
The middle of two numbers, and the extents on either side of it.

Halving a number is exact, but for the numbers so small that sums of them are. So a sum or difference that is halved is
rounded once (`half_round`): the middle of two numbers is the number nearest to their exact middle (`Apart.middle_eq`), and
half of an extent is the number nearest to half of the exact one. The extent on one side of a middle is off from that by three
roundings, each by half a spacing at most (`Apart.half_extent_le`); where the middle is exact it is the very same number
(`Apart.side_of_exact`). The middle is exact wherever both ends are on a grid coarse enough (`Coarse.middle`).
-/
import EventMatching.Proofs.Numeric.Order
import EventMatching.Proofs.Numeric.Spacing
import EventMatching.Proofs.Numeric.Widening

namespace EventMatching
namespace BinaryFormat

variable (F : BinaryFormat)

/-! ## Halves -/

/-- one exponent further up, magnitudes are twice as great -/
theorem units_add_step {c : Nat} (h : F.step ≤ c) : F.units (c + F.step) = 2 * F.units c := by
  have hdiv : 1 ≤ c / F.step := (Nat.le_div_iff_mul_le F.step_pos).2 (by omega)
  obtain ⟨d, hd⟩ : ∃ d, c / F.step = d + 1 := ⟨c / F.step - 1, by omega⟩
  rw [units, units, if_neg (by omega), if_neg (by omega), Nat.add_mod_right, Nat.add_div_right _ F.step_pos, hd]
  calc (F.step + c % F.step) * Nat.pow 2 (d + 1)
    _ = (F.step + c % F.step) * (Nat.pow 2 d * 2) := rfl
    _ = 2 * ((F.step + c % F.step) * Nat.pow 2 d) := by rw [← Nat.mul_assoc, Nat.mul_comm]

/-- a code is left behind by a quotient if the code one exponent further up is left behind by twice the quotient -/
theorem beyond_add_step {c num : Nat} (h : F.step ≤ c) : F.Beyond (c + F.step) num 1 ↔ F.Beyond c num 2 := by
  have hparity : (c + F.step) % 2 = c % 2 := by
    have := F.step_even
    omega
  have hsucc : F.units (c + F.step + 1) = 2 * F.units (c + 1) := by
    rw [Nat.add_right_comm, F.units_add_step (by omega)]
  rw [Beyond, Beyond, F.units_add_step h, hsucc, hparity, Nat.one_mul, Nat.mul_add]

theorem units_of_le {n : Nat} (h : n ≤ 2 * F.step) : F.units n = n := by
  rcases Nat.lt_or_ge n F.step with hn | hn
  · exact F.units_of_lt hn
  · have := F.units_normal 0 hn h
    rw [Nat.zero_mul, Nat.zero_add] at this
    rw [this]
    exact Nat.mul_one n

theorem two_mul_step_le_top : 2 * F.step ≤ F.top := by
  obtain ⟨hpow, hpow'⟩ := F.two_pow_exponentBits
  exact Nat.mul_le_mul_right F.step (by omega)

/-- **Half of a rounded number is the rounded half.** -/
theorem nearest_half {num : Nat} (h : F.nearest num 1 < F.top) :
    F.nearest (F.units (F.nearest num 1)) 2 = F.nearest num 2 := by
  have htop := F.two_mul_step_le_top
  have hexact {n : Nat} (hn : n ≤ 2 * F.step) : F.nearest n 1 = n := by
    have := F.nearest_units (c := n) Nat.one_pos (by omega)
    rwa [F.units_of_le hn, Nat.mul_one] at this
  rcases Nat.lt_or_ge num (2 * F.step) with hnum | hnum
  · -- small numbers of units are all in the format
    rw [hexact (Nat.le_of_lt hnum), F.units_of_le (Nat.le_of_lt hnum)]
  · have hlow : 2 * F.step ≤ F.nearest num 1 := by
      rw [← hexact (Nat.le_refl _)]
      exact F.nearest_le_nearest Nat.one_pos Nat.one_pos (by omega)
    have hlow' : F.step ≤ F.nearest num 2 := by
      have hstep := F.nearest_units (c := F.step) Nat.two_pos (by omega)
      rw [F.units_of_le (by omega)] at hstep
      rw [← hstep]
      exact F.nearest_le_nearest Nat.two_pos Nat.two_pos (by omega)
    obtain ⟨j, hj⟩ : ∃ j, F.nearest num 1 = j + F.step := ⟨F.nearest num 1 - F.step, by omega⟩
    have hhalf : F.nearest (F.units (F.nearest num 1)) 2 = j := by
      rw [hj, F.units_add_step (by omega), Nat.mul_comm]
      exact F.nearest_units Nat.two_pos (by omega)
    rw [hhalf]
    -- both leave behind the same codes from the first exponent on
    have hsame {i : Nat} (hi : F.step ≤ i) (hi' : i + F.step < F.top) : i < F.nearest num 2 ↔ i < j := by
      rw [F.lt_nearest_iff Nat.two_pos (by omega), ← F.beyond_add_step hi, ← F.lt_nearest_iff Nat.one_pos hi', hj]
      omega
    have hj' := hsame (i := j) (by omega) (by omega)
    rcases Nat.lt_or_ge (F.nearest num 2) j with hlt | hge
    · have := hsame (i := F.nearest num 2) hlow' (by omega)
      omega
    · omega

/-- rounding depends on the quotient alone -/
theorem nearest_mul {k num den : Nat} (hk : 0 < k) (hden : 0 < den) : F.nearest (k * num) (k * den) = F.nearest num den := by
  have hkden := Nat.mul_pos hk hden
  have hcross : k * num * den = num * (k * den) := by rw [Nat.mul_comm k num, Nat.mul_assoc]
  exact Nat.le_antisymm (F.nearest_le_nearest hkden hden (Nat.le_of_eq hcross))
    (F.nearest_le_nearest hden hkden (Nat.le_of_eq hcross.symm))

end BinaryFormat

namespace Binary

variable {F : BinaryFormat} {x y a b : Binary F}

/-- **A rounded number that is halved is rounded once.** -/
theorem half_round {s : Bool} {num : Int} (h : (round s num 1 : Binary F).isFinite = true) :
    (round s num 1 : Binary F).half = round s num 2 := by
  obtain ⟨hnan, hinf⟩ := isFinite_iff.1 h
  have hmul := round_toUnits_mul (G := F) (round s num 1 : Binary F) Nat.one_pos 2
  have hnearest := F.nearest_half (of_decide_eq_true h)
  rw [half, hnan, hinf, if_neg Bool.false_ne_true, if_neg Bool.false_ne_true]
  rw [show ((1 : Nat) : Int) = 1 from rfl, Int.mul_one, Nat.mul_one] at hmul
  rw [hmul]
  simp only [round, ofCode, hnearest]

theorem isFinite_round_two {s : Bool} {num : Int} (h : (round s num 1 : Binary F).isFinite = true) :
    (round s num 2 : Binary F).isFinite = true :=
  decide_eq_true (Nat.lt_of_le_of_lt (F.nearest_le_nearest Nat.two_pos Nat.one_pos (by omega)) (of_decide_eq_true h))

theorem sub_finite (hx : x.isFinite = true) (hy : y.isFinite = true) :
    y - x = round (y.negative && (-x).negative) (y.toUnits - x.toUnits) 1 := by
  rw [sub_eq, add_finite hy (by rwa [isFinite_neg]), toUnits_neg, Int.sub_eq_add_neg]

/-! ## Ends and their middle -/

/-- what is not below a finite number is finite too, or the infinity above all numbers -/
theorem isFinite_or_infinity_of_le (hx : x.isFinite = true) (h : x.le y = true) :
    y.isFinite = true ∨ y = infinity false := by
  obtain ⟨-, hnan, hrank⟩ := le_iff.1 h
  rcases kinds y with hy | ⟨s, rfl⟩ | hy
  · rw [hnan] at hy
    cases hy
  · cases s with
    | false => exact .inr rfl
    | true =>
      have := rank_lt_top hx
      rw [rank_infinity, if_pos rfl] at hrank
      omega
  · exact .inl hy

/-- the middle of the two numbers, as it is computed, is strictly between them -/
structure Apart (a b : Binary F) : Prop where
  left : a.lt (a + b).half = true
  right : (a + b).half.lt b = true

theorem half_infinity (s : Bool) : (infinity s : Binary F).half = infinity s := by simp [half]

theorem isNaN_half (h : x.isNaN = true) : x.half.isNaN = true := by simp [half, h]

namespace Apart

variable (h : Apart a b)

include h

theorem lt : a.lt b = true := lt_trans h.left h.right

theorem isFinite_left : a.isFinite = true := by
  have hleft := h.left
  rcases kinds a with ha | ⟨s, rfl⟩ | ha
  · rw [(lt_iff.1 hleft).1] at ha
    cases ha
  · rcases infinity_add_cases s b with hsum | hsum
    · rw [hsum, half_infinity, lt_irrefl] at hleft
      cases hleft
    · rw [lt_iff, isNaN_half hsum] at hleft
      cases hleft.2.1
  · exact ha

theorem isFinite_right : b.isFinite = true := by
  have hright := h.right
  rcases kinds b with hb | ⟨s, rfl⟩ | hb
  · rw [(lt_iff.1 hright).2.1] at hb
    cases hb
  · rw [add_infinity h.isFinite_left, half_infinity, lt_irrefl] at hright
    cases hright
  · exact hb

theorem isFinite_middle : (a + b).half.isFinite = true := by
  rcases isFinite_or_infinity_of_le h.isFinite_left (le_of_lt h.left) with hc | hc
  · exact hc
  · have hright := (lt_iff.1 h.right).2.2
    have hb := rank_lt_top h.isFinite_right
    rw [hc, rank_infinity, if_neg Bool.false_ne_true] at hright
    omega

theorem isFinite_sum : (a + b).isFinite = true := by
  have hmiddle := isFinite_iff.1 h.isFinite_middle
  rcases kinds (a + b) with hs | ⟨s, hs⟩ | hs
  · rw [isNaN_half hs] at hmiddle
    cases hmiddle.1
  · rw [hs, half_infinity, isInfinite_infinity] at hmiddle
    cases hmiddle.2
  · exact hs

/-- **The middle is the number nearest to the exact middle.** -/
theorem middle_eq : (a + b).half = round (a.negative && b.negative) (a.toUnits + b.toUnits) 2 := by
  have hsum := h.isFinite_sum
  rw [add_finite h.isFinite_left h.isFinite_right] at hsum ⊢
  exact half_round hsum

/-- the extent is exact before it is rounded, and so is half of it -/
theorem extent_eq (hd : (b - a).isFinite = true) :
    ∃ s, b - a = round s (b.toUnits - a.toUnits) 1 ∧ (b - a).half = round s (b.toUnits - a.toUnits) 2 := by
  have hsub := sub_finite h.isFinite_left h.isFinite_right
  refine ⟨_, hsub, ?_⟩
  rw [hsub] at hd ⊢
  exact half_round hd

end Apart

/-! ## The extents on either side -/

/-- the extent on one side of the middle, as it is computed -/
def side (a b : Binary F) (beyond : Bool) : Binary F := if beyond then b - (a + b).half else (a + b).half - a

namespace Apart

variable (h : Apart a b)

include h

/-- an extent on one side of the middle is the rounded distance from an end to the middle, and twice this is the distance of
the ends up to the spacing at the middle, either way -/
theorem exists_side (beyond : Bool) :
    ∃ s num, side a b beyond = round s num 1 ∧ 0 ≤ num ∧
      b.toUnits - a.toUnits ≤ 2 * num + (a + b).half.spacing ∧
      2 * num ≤ b.toUnits - a.toUnits + (a + b).half.spacing ∧
      (2 * (a + b).half.toUnits = a.toUnits + b.toUnits → 2 * num = b.toUnits - a.toUnits) := by
  have hleft : a.toUnits ≤ (a + b).half.toUnits := toUnits_le_iff.2 (Int.le_of_lt (lt_iff.1 h.left).2.2)
  have hright : (a + b).half.toUnits ≤ b.toUnits := toUnits_le_iff.2 (Int.le_of_lt (lt_iff.1 h.right).2.2)
  have hmiddle := h.isFinite_middle
  have herror : a.toUnits + b.toUnits ≤ 2 * (a + b).half.toUnits + (a + b).half.spacing ∧
      2 * (a + b).half.toUnits ≤ a.toUnits + b.toUnits + (a + b).half.spacing := by
    rw [h.middle_eq] at hmiddle ⊢
    have := round_error _ _ Nat.two_pos hmiddle
    dsimp only at this
    omega
  unfold side
  split
  · exact ⟨_, _, sub_finite hmiddle h.isFinite_right, by omega⟩
  · exact ⟨_, _, sub_finite h.isFinite_left hmiddle, by omega⟩

/-- the extent on either side is finite, even if that of the whole is not -/
theorem isFinite_side (beyond : Bool) : (side a b beyond).isFinite = true := by
  obtain ⟨s, num, hside, hpos, -, hnum, htwice⟩ := h.exists_side beyond
  have ha := natAbs_toUnits_le h.isFinite_left
  have hb := natAbs_toUnits_le h.isFinite_right
  have htop := F.overflow_eq
  have hgap : 0 < F.spacing (F.top - 1) := Nat.two_pow_pos _
  have hspacing : (a + b).half.spacing ≤ F.spacing (F.top - 1) := by
    have hcode : (a + b).half.code < F.top := of_decide_eq_true h.isFinite_middle
    exact F.spacing_le (Nat.le_sub_one_of_lt hcode)
  rw [hside, isFinite_round_iff]
  refine Nat.lt_of_not_le fun hle => ?_
  -- only the distance between the last numbers is as great as that, and the middle of these is zero
  have hsum : a.toUnits + b.toUnits = 0 := by omega
  have hmiddle : (a + b).half.toUnits = 0 := by
    rw [h.middle_eq, hsum, toUnits_round _ _ Nat.two_pos, Int.natAbs_zero, nearest_zero Nat.two_pos, units_zero]
    rfl
  have := htwice (by omega)
  omega

/-- **Three roundings, each off by half a spacing at most**, are between half of the extent and the extent on one side: that
of the middle, and that of either of the two. -/
theorem half_extent_le (hd : (b - a).isFinite = true) (beyond : Bool) :
    2 * (b - a).half.toUnits ≤ 2 * (side a b beyond).toUnits + (a + b).half.spacing + (b - a).half.spacing +
      (side a b beyond).spacing := by
  have hfinite := h.isFinite_side beyond
  obtain ⟨s, hsub, hhalf⟩ := h.extent_eq hd
  obtain ⟨s', num, hside, -, hnum, -, -⟩ := h.exists_side beyond
  rw [hsub] at hd
  rw [hside] at hfinite ⊢
  rw [hhalf]
  have hextent := round_error s _ Nat.two_pos (isFinite_round_two hd)
  have hpart := round_error s' num Nat.one_pos hfinite
  dsimp only at hextent hpart
  omega

/-- **Where the middle is exact, the extent on either side of it is half of the extent.** -/
theorem side_of_exact (hd : (b - a).isFinite = true) (hexact : 2 * (a + b).half.toUnits = a.toUnits + b.toUnits)
    (beyond : Bool) : (side a b beyond).rank = (b - a).half.rank := by
  obtain ⟨s, -, hhalf⟩ := h.extent_eq hd
  obtain ⟨s', num, hside, hpos, -, -, htwice⟩ := h.exists_side beyond
  have hnearest : F.nearest (2 * num.natAbs) (2 * 1) = F.nearest num.natAbs 1 := F.nearest_mul Nat.two_pos Nat.one_pos
  rw [hhalf, hside, ← htwice hexact, rank_round s' num Nat.one_pos, rank_round s (2 * num) Nat.two_pos,
    if_neg (by omega), if_neg (by omega), Int.natAbs_mul]
  exact congrArg Int.ofNat hnearest.symm

end Apart

/-! ## Middles that are exact -/

/-- a multiple of 2^(t + n) units, and not so great that a multiple of 2^t units is none of the format's numbers -/
structure Coarse (t n : Nat) (x : Binary F) : Prop where
  multiple : (Nat.pow 2 (t + n) : Int) ∣ x.toUnits
  bounded : x.toUnits.natAbs ≤ 2 * F.step * Nat.pow 2 t

instance (t n : Nat) (x : Binary F) : Decidable (Coarse t n x) :=
  decidable_of_iff ((Nat.pow 2 (t + n) : Int) ∣ x.toUnits ∧ x.toUnits.natAbs ≤ 2 * F.step * Nat.pow 2 t)
    ⟨fun h => ⟨h.1, h.2⟩, fun h => ⟨h.1, h.2⟩⟩

/-- a whole number of units of the format is rounded to itself -/
theorem toUnits_round_of_units (s : Bool) {num : Int} {c : Nat} (hc : c ≤ F.top) (hnum : num.natAbs = F.units c) :
    (round s (2 * num) 2 : Binary F).toUnits = num := by
  have hnearest : F.nearest (2 * num).natAbs 2 = c := by
    rw [Int.natAbs_mul, hnum, Nat.mul_comm]
    exact F.nearest_units Nat.two_pos hc
  rw [toUnits_round s _ Nat.two_pos, hnearest, ← hnum]
  split <;> omega

theorem Coarse.finer {t n : Nat} (h : Coarse t (n + 1) x) : Coarse t n x :=
  ⟨Int.dvd_trans ⟨2, by exact_mod_cast Nat.pow_succ (n := 2) (m := t + n)⟩ h.multiple, h.bounded⟩

/-- **The middle of coarse numbers is exact**, and only once less coarse than they are. -/
theorem Coarse.middle {t n : Nat} (h : Apart a b) (ha : Coarse t (n + 1) a) (hb : Coarse t (n + 1) b) :
    2 * (a + b).half.toUnits = a.toUnits + b.toUnits ∧ Coarse t n (a + b).half := by
  obtain ⟨p, hp⟩ := ha.multiple
  obtain ⟨q, hq⟩ := hb.multiple
  obtain ⟨mid, hmid⟩ : ∃ mid : Int, mid = Nat.pow 2 (t + n) * (p + q) := ⟨_, rfl⟩
  have hsum : a.toUnits + b.toUnits = 2 * mid := by
    have hpow : (Nat.pow 2 (t + (n + 1)) : Int) = Nat.pow 2 (t + n) * 2 := rfl
    rw [hp, hq, hmid, hpow]
    grind
  have hbounded : mid.natAbs ≤ 2 * F.step * Nat.pow 2 t := by
    have := ha.bounded
    have := hb.bounded
    omega
  -- so the exact middle is one of the format's numbers
  obtain ⟨c, hc⟩ : ∃ c, F.units c = mid.natAbs := by
    have hsplit : mid.natAbs = Nat.pow 2 n * (p + q).natAbs * Nat.pow 2 t := by
      have hpow : Nat.pow 2 (t + n) = Nat.pow 2 t * Nat.pow 2 n := Nat.pow_add 2 t n
      rw [hmid, Int.natAbs_mul, Int.natAbs_natCast, hpow, Nat.mul_assoc, Nat.mul_comm]
    rw [hsplit] at hbounded ⊢
    exact F.exists_units t (Nat.le_of_mul_le_mul_right hbounded (Nat.two_pow_pos t))
  have hctop : c < F.top := by
    have hlast := natAbs_toUnits_lt h.isFinite_left
    have hlast' := natAbs_toUnits_lt h.isFinite_right
    exact F.units_lt_iff.1 (by omega)
  have hmiddle : (a + b).half.toUnits = mid := by
    rw [h.middle_eq, hsum]
    exact toUnits_round_of_units _ (Nat.le_of_lt hctop) hc.symm
  rw [hmiddle]
  exact ⟨hsum.symm, ⟨hmiddle ▸ ⟨p + q, hmid⟩, hmiddle ▸ hbounded⟩⟩

end Binary
end EventMatching
