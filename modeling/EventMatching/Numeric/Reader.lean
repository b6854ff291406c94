/-
Reading a floating point number from text.

A number is an optional sign and either a decimal, or one of the words `inf`, `infinity` and `nan` in any case. A decimal
has digits with at most one point among or around them, at least one digit, and possibly an exponent: `e` or `E`, an
optional sign and at least one digit. Nothing may stand before or after it. The result is rounded once.
-/
import EventMatching.Numeric.Decimal

namespace EventMatching

/-- why a text is no number -/
inductive NumberFault where
  | empty
  | malformed
deriving DecidableEq

namespace NumberFault

def message : NumberFault → String
  | empty => "cannot parse float from empty string"
  | malformed => "invalid float literal"

end NumberFault

namespace Decimal

/-- the number written by a sequence of digits -/
def ofDigits (cs : List Char) : Nat := Nat.ofDigitChars 10 cs 0

/-- a sign in front, true for minus, and what follows it -/
def splitSign : List Char → Bool × List Char
  | '-' :: cs => (true, cs)
  | '+' :: cs => (false, cs)
  | cs => (false, cs)

/-- what follows the digits of a decimal: nothing, or an exponent -/
def readExponent : List Char → Option Int
  | [] => some 0
  | c :: cs =>
    let (negative, ds) := splitSign cs
    if (c == 'e' || c == 'E') && !ds.isEmpty && ds.all Char.isDigit then
      some (if negative then -(ofDigits ds : Int) else ofDigits ds)
    else none

/-- an unsigned decimal, if the text is one -/
def read (cs : List Char) : Option Decimal :=
  let whole := cs.takeWhile Char.isDigit
  let rest := cs.dropWhile Char.isDigit
  let afterPoint := if rest.head? == some '.' then rest.tail else []
  let fraction := afterPoint.takeWhile Char.isDigit
  let tail := if rest.head? == some '.' then afterPoint.dropWhile Char.isDigit else rest
  if whole.isEmpty && fraction.isEmpty then none
  else (readExponent tail).map fun e => ⟨ofDigits (whole ++ fraction), e - fraction.length⟩

end Decimal

namespace Binary

variable {F : BinaryFormat}

/-- the number that a sequence of characters writes -/
def readDigits (cs : List Char) : Option (Binary F) :=
  let (negative, rest) := Decimal.splitSign cs
  let word := String.ofList (rest.map Char.toLower)
  if word == "inf" || word == "infinity" then some (infinity negative)
  else if word == "nan" then some (if negative then neg nan else nan)
  else (Decimal.read rest).map (ofDecimal negative)

/-- the number that a text writes -/
def read (s : String) : Except NumberFault (Binary F) :=
  if s.isEmpty then .error .empty
  else
    match readDigits s.toList with
    | some x => .ok x
    | none => .error .malformed

end Binary
end EventMatching
