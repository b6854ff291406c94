/-
Decimal numbers, and the shortest one that reads back as a given floating point number.

`BinaryFormat.ofDecimal` reads: it gives the code nearest to a decimal. `BinaryFormat.shortest` writes: it goes through
the grids of multiples of 10^j from coarse to fine, looks at the two neighbours of the number on each, and takes the
first grid on which one of them reads back as the number; of two that do, the nearer, and on a tie the greater. Every
number of the format is itself a multiple of 10^(-scale), so the search ends at the exact value at the latest, and
what it finds always reads back.
-/
import EventMatching.Numeric.Arithmetic

namespace EventMatching

/-- the number `coefficient * 10 ^ exponent` -/
structure Decimal where
  coefficient : Nat
  exponent : Int
deriving DecidableEq

namespace Decimal

/-- the last `count` decimal digits of `n`, with leading zeros -/
def fixedDigits : (count : Nat) → (n : Nat) → List Char
  | 0, _ => []
  | count + 1, n => fixedDigits count (n / 10) ++ [Nat.digitChar (n % 10)]

/-- positional notation: no exponent, and a point only before a fraction -/
def digits (d : Decimal) : List Char :=
  match d.exponent with
  | .ofNat e => Nat.toDigits 10 (d.coefficient * Nat.pow 10 e)
  | .negSucc e =>
    let unit := Nat.pow 10 (e + 1)
    Nat.toDigits 10 (d.coefficient / unit) ++ '.' :: fixedDigits (e + 1) (d.coefficient % unit)

end Decimal

namespace BinaryFormat

/-- the code nearest to a decimal. Exponents that are certain to overflow or to vanish are settled without computing
the power of ten: 10^scale is beyond every finite number, and 10^e exceeds 2^e. -/
def ofDecimal (F : BinaryFormat) (d : Decimal) : Nat :=
  match d.exponent with
  | .ofNat e =>
    if d.coefficient = 0 then 0
    else if F.scale < e then F.top
    else F.nearest (d.coefficient * Nat.pow 10 e * F.one) 1
  | .negSucc e =>
    if d.coefficient.log2 + F.scale + 2 < e + 1 then 0
    else F.nearest (d.coefficient * F.one) (Nat.pow 10 (e + 1))

/-- the search of `shortest` over the grids 10^(j - scale), 10^(j - 1 - scale), …; `exact` is the number as a multiple
of 10^(-scale) -/
def shortestFrom (F : BinaryFormat) (code exact : Nat) : (j : Nat) → Decimal
  | 0 => ⟨exact, -F.scale⟩
  | j + 1 =>
    let low : Decimal := ⟨exact / Nat.pow 10 (j + 1), (j + 1 : Int) - F.scale⟩
    let high : Decimal := ⟨low.coefficient + 1, low.exponent⟩
    match F.ofDecimal low == code, F.ofDecimal high == code with
    | true, true => if 2 * exact < (low.coefficient + high.coefficient) * Nat.pow 10 (j + 1) then low else high
    | true, false => low
    | false, true => high
    | false, false => shortestFrom F code exact j

/-- the decimal on the coarsest grid that reads back as `code`. The search starts at a grid at least as coarse as the
leading digit: 30103 / 100000 is just above the decimal logarithm of 2. -/
def shortest (F : BinaryFormat) (code : Nat) : Decimal :=
  let exact := F.units code * Nat.pow 5 F.scale
  if code = 0 then ⟨0, 0⟩ else F.shortestFrom code exact (exact.log2 * 30103 / 100000 + 1)

end BinaryFormat

namespace Binary

variable {F : BinaryFormat}

/-- the number nearest to a decimal, with the given sign -/
def ofDecimal (negative : Bool) (d : Decimal) : Binary F :=
  ofCode negative (min (F.ofDecimal d) F.top) (Nat.min_le_right _ _)

/-- the characters of a number: its shortest decimal in positional notation, `inf` or `NaN`, after a minus sign if the
sign bit is set and it is a number -/
def digits (x : Binary F) : List Char :=
  if x.isNaN then ['N', 'a', 'N']
  else
    (if x.negative then ['-'] else []) ++
      (if x.isInfinite then ['i', 'n', 'f'] else (F.shortest x.code).digits)

/-- the text of a number -/
def text (x : Binary F) : String := String.ofList x.digits

end Binary
end EventMatching
