/-
Binary floating point formats as grids of numbers.

A format has a sign bit, `exponentBits` bits of exponent and `fractionBits` bits of fraction. The two fields below the
sign are read as one magnitude `code`. Codes below `top` are finite, `top` is infinity, codes above it are no numbers.
The magnitude of a finite code is a whole number of units, a unit being the least positive number 2^(-scale): `units`
grows strictly with the code, so magnitudes are compared as codes and computed with as whole numbers.

`nearest` rounds a quotient of whole numbers of units to the closest code, a tie to the even one. The grid goes on one
step past the greatest finite code, so a quotient half a step or more beyond it rounds to `top`.
-/

namespace EventMatching

/-- a binary interchange format, described by the widths of its two fields below the sign -/
structure BinaryFormat where
  exponentBits : Nat
  fractionBits : Nat
  one_lt_exponentBits : 1 < exponentBits := by decide
  fractionBits_pos : 0 < fractionBits := by decide
deriving DecidableEq

namespace BinaryFormat

/-- the 64 bit format: 11 bits of exponent, 52 of fraction -/
def double : BinaryFormat := ⟨11, 52, by decide, by decide⟩

/-- the 32 bit format: 8 bits of exponent, 23 of fraction -/
def single : BinaryFormat := ⟨8, 23, by decide, by decide⟩

/-- number of codes that share one exponent -/
def step (F : BinaryFormat) : Nat := Nat.pow 2 F.fractionBits

/-- number of magnitude codes -/
def codes (F : BinaryFormat) : Nat := Nat.pow 2 (F.exponentBits + F.fractionBits)

/-- the code of infinity: all exponent bits set, no fraction bit set -/
def top (F : BinaryFormat) : Nat := (Nat.pow 2 F.exponentBits - 1) * F.step

/-- the least positive number of the format is 2^(-scale) -/
def scale (F : BinaryFormat) : Nat := Nat.pow 2 (F.exponentBits - 1) - 2 + F.fractionBits

/-- number of units in the number one -/
def one (F : BinaryFormat) : Nat := Nat.pow 2 F.scale

/-- the magnitude of a code in units: the lowest codes are subnormal and count units one by one, above them each
further exponent doubles the step -/
def units (F : BinaryFormat) (code : Nat) : Nat :=
  if code < F.step then code else (F.step + code % F.step) * Nat.pow 2 (code / F.step - 1)

/-- the greatest code whose magnitude is at most `n` units -/
def floorCode (F : BinaryFormat) (n : Nat) : Nat :=
  let doublings := n.log2 - F.fractionBits
  doublings * F.step + n / Nat.pow 2 doublings

/-- the code closest to `num / den` units, the even one of two equally close, and at most `top` -/
def nearest (F : BinaryFormat) (num den : Nat) : Nat :=
  let low := F.floorCode (num / den)
  let middle := den * (F.units low + F.units (low + 1))
  let code := if 2 * num < middle then low else if middle < 2 * num then low + 1 else low + low % 2
  min code F.top

theorem step_pos (F : BinaryFormat) : 0 < F.step := Nat.two_pow_pos _

theorem top_add_step (F : BinaryFormat) : F.top + F.step = F.codes := by
  simp only [top, codes, step, Nat.pow_eq]
  rw [Nat.pow_add, Nat.sub_one_mul]
  exact Nat.sub_add_cancel (Nat.le_mul_of_pos_left _ (Nat.two_pow_pos _))

theorem top_lt_codes (F : BinaryFormat) : F.top < F.codes := by
  have := F.step_pos
  have := F.top_add_step
  omega

theorem codes_pos (F : BinaryFormat) : 0 < F.codes := Nat.two_pow_pos _

theorem nearest_le_top (F : BinaryFormat) (num den : Nat) : F.nearest num den ≤ F.top := Nat.min_le_right _ _

end BinaryFormat
end EventMatching
