/-
Numbers in text.

Positional notation shows a decimal with all its digits, so reading it gives the decimal back (`read_digits`), with a
positive exponent multiplied out. The shortest decimal of a number reads back as that number by the way it is found
(`ofDecimal_shortest`), since the search ends at the exact value at the latest, which is rounded to itself. Hence every
number is read from its own text (`read_text`), and no two numbers share a text.
-/
import EventMatching.Numeric.Reader
import EventMatching.Proofs.Numeric.Rounding

namespace EventMatching

/-! ## Digits -/

namespace Decimal

theorem length_fixedDigits (count n : Nat) : (fixedDigits count n).length = count := by
  induction count generalizing n with
  | zero => rfl
  | succ count ih => rw [fixedDigits, List.length_append, ih, List.length_singleton]

theorem isDigit_of_mem_fixedDigits {count n : Nat} {c : Char} (h : c ∈ fixedDigits count n) : c.isDigit = true := by
  induction count generalizing n with
  | zero => cases h
  | succ count ih =>
    rw [fixedDigits, List.mem_append, List.mem_singleton] at h
    rcases h with h | rfl
    · exact ih h
    · rw [Nat.isDigit_digitChar]
      exact decide_eq_true (Nat.mod_lt n (by decide))

/-- digits put after others add the last digits of their number -/
theorem ofDigitChars_fixedDigits (count n init : Nat) :
    Nat.ofDigitChars 10 (fixedDigits count n) init = init * Nat.pow 10 count + n % Nat.pow 10 count := by
  induction count generalizing n with
  | zero =>
    rw [fixedDigits, Nat.ofDigitChars_nil]
    simp [Nat.mod_one]
  | succ count ih =>
    have hlast : n % 10 < 10 := Nat.mod_lt n (by decide)
    have hpow : Nat.pow 10 (count + 1) = 10 * Nat.pow 10 count := Nat.mul_comm _ _
    calc Nat.ofDigitChars 10 (fixedDigits (count + 1) n) init
      _ = 10 * Nat.ofDigitChars 10 (fixedDigits count (n / 10)) init + n % 10 := by
        rw [fixedDigits, Nat.ofDigitChars_append, Nat.ofDigitChars_cons_digitChar_of_lt_ten hlast, Nat.ofDigitChars_nil]
      _ = init * (10 * Nat.pow 10 count) + (n % 10 + 10 * (n / 10 % Nat.pow 10 count)) := by
        rw [ih, Nat.mul_add, Nat.mul_left_comm, Nat.add_assoc, Nat.add_comm (n % 10)]
      _ = init * Nat.pow 10 (count + 1) + n % Nat.pow 10 (count + 1) := by rw [hpow, Nat.mod_mul]

theorem digits_ofNat (c e : Nat) : digits ⟨c, .ofNat e⟩ = Nat.toDigits 10 (c * Nat.pow 10 e) := rfl

theorem digits_negSucc (c e : Nat) : digits ⟨c, .negSucc e⟩ =
    Nat.toDigits 10 (c / Nat.pow 10 (e + 1)) ++ '.' :: fixedDigits (e + 1) (c % Nat.pow 10 (e + 1)) := rfl

/-- the decimal as its digits show it: a positive exponent is multiplied out -/
def positional (d : Decimal) : Decimal :=
  match d.exponent with
  | .ofNat e => ⟨d.coefficient * Nat.pow 10 e, 0⟩
  | .negSucc _ => d

theorem isDigit_of_mem_toDigits {n : Nat} {c : Char} (h : c ∈ Nat.toDigits 10 n) : c.isDigit = true :=
  Nat.isDigit_of_mem_toDigits (by decide) (by decide) h

/-- the digits in front of a text are told from the rest, if that does not go on with one -/
theorem span_digits {ds : List Char} (h : ∀ c ∈ ds, c.isDigit = true) (rest : List Char)
    (hr : rest.head?.all (fun c => !c.isDigit) = true) :
    (ds ++ rest).takeWhile Char.isDigit = ds ∧ (ds ++ rest).dropWhile Char.isDigit = rest := by
  rw [List.takeWhile_append_of_pos h, List.dropWhile_append_of_pos h]
  cases rest with
  | nil => exact ⟨List.append_nil ds, rfl⟩
  | cons c rest =>
    have hc : c.isDigit = false := by simpa using hr
    rw [List.takeWhile_cons_of_neg (by simp [hc]), List.dropWhile_cons_of_neg (by simp [hc]), List.append_nil]
    exact ⟨rfl, rfl⟩

/-- digits without a point are a whole number -/
theorem read_whole {ds : List Char} (h : ∀ c ∈ ds, c.isDigit = true) (hne : ds ≠ []) :
    read ds = some ⟨ofDigits ds, 0⟩ := by
  have hempty : ds.isEmpty = false := by rwa [List.isEmpty_eq_false_iff]
  obtain ⟨htake, hdrop⟩ := span_digits h [] rfl
  rw [List.append_nil] at htake hdrop
  simp [read, htake, hdrop, hempty, readExponent]

/-- digits with a point have as many digits after it as the exponent says -/
theorem read_fraction {ds fs : List Char} (h : ∀ c ∈ ds, c.isDigit = true) (hf : ∀ c ∈ fs, c.isDigit = true)
    (hne : ds ≠ []) : read (ds ++ '.' :: fs) = some ⟨ofDigits (ds ++ fs), -fs.length⟩ := by
  have hempty : ds.isEmpty = false := by rwa [List.isEmpty_eq_false_iff]
  obtain ⟨htake, hdrop⟩ := span_digits h ('.' :: fs) rfl
  obtain ⟨hftake, hfdrop⟩ := span_digits hf [] rfl
  rw [List.append_nil] at hftake hfdrop
  simp [read, htake, hdrop, hftake, hfdrop, hempty, readExponent]

/-- **Digits are read back.** -/
theorem read_digits (d : Decimal) : read d.digits = some d.positional := by
  obtain ⟨c, e⟩ := d
  cases e with
  | ofNat e =>
    have := read_whole (fun _ => isDigit_of_mem_toDigits) (Nat.toDigits_ne_nil (b := 10) (n := c * Nat.pow 10 e))
    rw [digits_ofNat, this, ofDigits, Nat.ofDigitChars_ten_toDigits]
    rfl
  | negSucc e =>
    have hwhole : ∀ d ∈ Nat.toDigits 10 (c / Nat.pow 10 (e + 1)), d.isDigit = true := fun _ => isDigit_of_mem_toDigits
    have hfraction : ∀ d ∈ fixedDigits (e + 1) (c % Nat.pow 10 (e + 1)), d.isDigit = true :=
      fun _ => isDigit_of_mem_fixedDigits
    rw [digits_negSucc, read_fraction hwhole hfraction Nat.toDigits_ne_nil, length_fixedDigits, ofDigits,
      Nat.ofDigitChars_append, Nat.ofDigitChars_ten_toDigits, ofDigitChars_fixedDigits, Nat.mod_mod, Nat.div_add_mod']
    rfl

/-- a decimal begins with a digit -/
theorem digits_eq_cons (d : Decimal) : ∃ c cs, d.digits = c :: cs ∧ c.isDigit = true := by
  have hwhole : ∀ n rest, ∃ c cs, Nat.toDigits 10 n ++ rest = c :: cs ∧ c.isDigit = true := by
    intro n rest
    obtain ⟨c, cs, hcs⟩ := List.exists_cons_of_ne_nil (Nat.toDigits_ne_nil (b := 10) (n := n))
    exact ⟨c, cs ++ rest, by rw [hcs, List.cons_append], isDigit_of_mem_toDigits (hcs ▸ List.mem_cons_self)⟩
  obtain ⟨c, e⟩ := d
  cases e with
  | ofNat e =>
    rw [digits_ofNat, ← List.append_nil (Nat.toDigits 10 _)]
    exact hwhole _ _
  | negSucc e =>
    rw [digits_negSucc]
    exact hwhole _ _

/-- a decimal is written in digits and a point -/
theorem mem_digits {d : Decimal} {c : Char} (h : c ∈ d.digits) : c.isDigit = true ∨ c = '.' := by
  obtain ⟨n, e⟩ := d
  cases e with
  | ofNat e => exact .inl (isDigit_of_mem_toDigits h)
  | negSucc e =>
    rw [digits_negSucc, List.mem_append, List.mem_cons] at h
    rcases h with h | rfl | h
    · exact .inl (isDigit_of_mem_toDigits h)
    · exact .inr rfl
    · exact .inl (isDigit_of_mem_fixedDigits h)

end Decimal

/-! ## The shortest decimal -/

namespace BinaryFormat

variable (F : BinaryFormat)

/-- multiplying out a positive exponent makes no difference to a decimal in range -/
theorem ofDecimal_positional {d : Decimal} (h : F.ofDecimal d < F.top) : F.ofDecimal d.positional = F.ofDecimal d := by
  obtain ⟨c, e⟩ := d
  cases e with
  | negSucc e => rfl
  | ofNat e =>
    rcases Nat.eq_zero_or_pos c with rfl | hc
    · simp [ofDecimal, Decimal.positional]
    · have hprod : c * Nat.pow 10 e ≠ 0 := Nat.ne_of_gt (Nat.mul_pos hc (Nat.pow_pos (by decide)))
      have hrange : ¬F.scale < e := by
        intro hlt
        simp [ofDecimal, Nat.ne_of_gt hc, hlt] at h
      have hone : Nat.pow 10 0 = 1 := rfl
      simp only [ofDecimal, Decimal.positional, if_neg hprod, if_neg (Nat.ne_of_gt hc), if_neg hrange,
        if_neg (Nat.not_lt_zero _), Nat.mul_one, hone]

theorem scale_pos : 0 < F.scale := Nat.lt_of_lt_of_le F.fractionBits_pos (Nat.le_add_left _ _)

/-- the exact value of a number reads back as it -/
theorem ofDecimal_exact {c : Nat} (hc : c ≤ F.top) : F.ofDecimal ⟨F.units c * Nat.pow 5 F.scale, -F.scale⟩ = c := by
  obtain ⟨s, hs⟩ : ∃ s, F.scale = s + 1 := ⟨F.scale - 1, by have := F.scale_pos; omega⟩
  have hexp : -(F.scale : Int) = .negSucc s := by rw [hs]; rfl
  have hten : Nat.pow 5 F.scale * F.one = Nat.pow 10 F.scale := by
    simp only [one, Nat.pow_eq]
    rw [← Nat.mul_pow]
  rw [hexp, ofDecimal]
  dsimp only
  rw [if_neg (by omega), Nat.mul_assoc, hten, ← hs]
  exact F.nearest_units (Nat.pow_pos (by decide)) hc

/-- the search finds only decimals that read back, if the one that it ends at does -/
theorem ofDecimal_shortestFrom {code exact : Nat} (h : F.ofDecimal ⟨exact, -F.scale⟩ = code) (j : Nat) :
    F.ofDecimal (F.shortestFrom code exact j) = code := by
  induction j with
  | zero => exact h
  | succ j ih =>
    rw [shortestFrom]
    dsimp only
    split
    · rename_i hlow hhigh
      split
      · exact beq_iff_eq.1 hlow
      · exact beq_iff_eq.1 hhigh
    · rename_i hlow _
      exact beq_iff_eq.1 hlow
    · rename_i _ hhigh
      exact beq_iff_eq.1 hhigh
    · exact ih

/-- **The shortest decimal reads back.** -/
theorem ofDecimal_shortest {c : Nat} (hc : c ≤ F.top) : F.ofDecimal (F.shortest c) = c := by
  rw [shortest]
  split
  · rename_i h
    simp [ofDecimal, h]
  · exact F.ofDecimal_shortestFrom (F.ofDecimal_exact hc) _

end BinaryFormat

/-! ## Numbers -/

namespace Binary

variable {F : BinaryFormat}

/-- a word that begins with a digit is none that begins with a letter -/
theorem word_ne {c d : Char} (hc : c.isDigit = true) (hd : d.isDigit = false) (cs ds : List Char) :
    (String.ofList ((c :: cs).map Char.toLower) == String.ofList (d :: ds)) = false := by
  have hlower : c.toLower = c := by
    have h9 := (Char.isDigit_iff_toNat.1 hc).2
    refine dif_neg ?_
    intro hA
    exact absurd (Nat.le_trans hA.1 h9) (by decide)
  rw [beq_eq_false_iff_ne]
  intro h
  have := String.ofList_injective h
  rw [List.map_cons, hlower] at this
  obtain ⟨rfl, -⟩ := List.cons.inj this
  rw [hc] at hd
  cases hd

/-- what is written after the sign of a number is read back as its code, under the sign -/
theorem read_magnitude (s : Bool) {c : Nat} (hc : c < F.top) :
    (Decimal.read (F.shortest c).digits).map (ofDecimal s) = some (ofCode s c (Nat.le_of_lt hc) : Binary F) := by
  have hread := F.ofDecimal_shortest (Nat.le_of_lt hc)
  have hcode : F.ofDecimal (F.shortest c).positional = c := by
    rw [F.ofDecimal_positional (by rwa [hread]), hread]
  rw [Decimal.read_digits, Option.map_some, ofDecimal]
  simp only [hcode, Nat.min_eq_left (Nat.le_of_lt hc)]

/-- a sign is told from the digit that follows it -/
theorem splitSign_digits (s : Bool) {c : Char} (hc : c.isDigit = true) (cs : List Char) :
    Decimal.splitSign ((if s then ['-'] else []) ++ c :: cs) = (s, c :: cs) := by
  cases s with
  | true => rfl
  | false =>
    rw [if_neg Bool.false_ne_true, List.nil_append, Decimal.splitSign]
    · rintro cs' h
      obtain ⟨rfl, -⟩ := List.cons.inj h
      cases hc
    · rintro cs' h
      obtain ⟨rfl, -⟩ := List.cons.inj h
      cases hc

theorem readDigits_digits (x : Binary F) : readDigits x.digits = some (if x.isNaN then nan else x) := by
  rcases kinds x with hn | ⟨s, rfl⟩ | hf
  · rw [digits, if_pos hn, if_pos hn]
    rfl
  · rw [digits, isNaN_infinity, isInfinite_infinity]
    cases s <;> rfl
  · obtain ⟨hn, hi⟩ := isFinite_iff.1 hf
    obtain ⟨c, cs, hcs, hc⟩ := (F.shortest x.code).digits_eq_cons
    have hmagnitude := read_magnitude x.negative (of_decide_eq_true hf : x.code < F.top)
    rw [hcs] at hmagnitude
    rw [digits, hn, hi]
    have hinf : (_ == "inf") = false := word_ne hc (d := 'i') rfl cs ['n', 'f']
    have hinfinity : (_ == "infinity") = false := word_ne hc (d := 'i') rfl cs ['n', 'f', 'i', 'n', 'i', 't', 'y']
    have hnan : (_ == "nan") = false := word_ne hc (d := 'n') rfl cs ['a', 'n']
    simp only [Bool.false_eq_true, if_false, hcs, readDigits, splitSign_digits _ hc, hinf, hinfinity, hnan,
      Bool.or_self]
    exact hmagnitude

/-- **A number is read from its own text.** The sign of zero is kept; the text of NaN gives the quiet pattern. -/
theorem read_text (x : Binary F) : read x.text = .ok (if x.isNaN then nan else x) := by
  have hread := readDigits_digits x
  have hne : x.text.isEmpty = false := by
    rw [String.isEmpty_eq_false_iff]
    intro h
    have hnil : x.digits = [] := by
      have := congrArg String.toList h
      rwa [text, String.toList_ofList] at this
    rw [hnil] at hread
    cases hread
  rw [read, hne, text, String.toList_ofList, hread]
  rfl

/-- numbers with one text are one number -/
theorem text_inj {x y : Binary F} (hx : x.isNaN = false) (hy : y.isNaN = false) (h : x.text = y.text) : x = y := by
  have := read_text x
  rw [h, read_text y, hx, hy] at this
  exact (Except.ok.inj this).symm

/-- what a number is written in besides digits: a sign, a point, and the letters of `inf` and `NaN` -/
def marks : List Char := ['-', '.', 'i', 'n', 'f', 'N', 'a']

theorem mem_text {x : Binary F} {c : Char} (h : c ∈ x.text.toList) : c.isDigit = true ∨ c ∈ marks := by
  have hnan : ['N', 'a', 'N'] ⊆ marks := by decide
  have hinf : ['i', 'n', 'f'] ⊆ marks := by decide
  have hsign : ['-'] ⊆ marks := by decide
  rw [text, String.toList_ofList, digits] at h
  split at h
  · exact .inr (hnan h)
  · rcases List.mem_append.1 h with h | h
    · split at h
      · exact .inr (hsign h)
      · cases h
    · split at h
      · exact .inr (hinf h)
      · rcases Decimal.mem_digits h with h | rfl
        · exact .inl h
        · exact .inr (by decide)

/-- other characters separate texts of numbers -/
theorem not_mem_text {c : Char} (hd : c.isDigit = false) (hc : c ∉ marks) (x : Binary F) : c ∉ x.text.toList := by
  intro h
  rcases mem_text h with h | h
  · rw [hd] at h
    cases h
  · exact hc h

theorem isNaN_unsignedZero (x : Binary F) : x.unsignedZero.isNaN = x.isNaN := by
  unfold unsignedZero
  split
  · rename_i h
    rw [isNaN_zero, (beq_iff.1 h).1]
  · rfl

/-- the texts of numbers without the sign of zero tell unequal numbers apart, and no others -/
theorem text_unsignedZero_iff {x y : Binary F} (hx : x.isNaN = false) (hy : y.isNaN = false) :
    x.unsignedZero.text = y.unsignedZero.text ↔ (x == y) = true := by
  have hcanonical : ∀ {z : Binary F}, z.isNaN = false → z.canonical = z.unsignedZero := by
    intro z hz
    rw [canonical, hz, if_neg Bool.false_ne_true]
  have halike : x.unsignedZero = y.unsignedZero ↔ (x == y) = true := by
    rw [← hcanonical hx, ← hcanonical hy]
    refine alike_iff.trans (or_iff_right ?_)
    rintro ⟨h, -⟩
    rw [hx] at h
    cases h
  rw [← halike]
  constructor
  · exact text_inj (by rwa [isNaN_unsignedZero]) (by rwa [isNaN_unsignedZero])
  · intro h
    rw [h]

end Binary
end EventMatching
