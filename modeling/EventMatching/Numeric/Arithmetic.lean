/-
Arithmetic of floating point numbers: every result is the exact one, rounded once by `BinaryFormat.nearest`.

Finite numbers are whole numbers of units, so sums and halves are exact quotients of whole numbers. A zero sum is
negative only if both summands are; sums of opposite infinities and all operations on NaN give NaN.
-/
import EventMatching.Numeric.Binary

namespace EventMatching
namespace Binary

variable {F G : BinaryFormat}

/-- the exact value of a finite number in units, which loses the sign of zero -/
def toUnits (x : Binary F) : Int := if x.negative then -(F.units x.code : Int) else F.units x.code

/-- the number nearest to `num / den` units; `negativeZero` is the sign if `num` is zero -/
def round (negativeZero : Bool) (num : Int) (den : Nat) : Binary F :=
  ofCode (if num = 0 then negativeZero else decide (num < 0)) (F.nearest num.natAbs den) (F.nearest_le_top _ _)

def add (x y : Binary F) : Binary F :=
  if x.isNaN || y.isNaN then nan
  else if x.isInfinite then if y.isInfinite && x.negative != y.negative then nan else x
  else if y.isInfinite then y
  else round (x.negative && y.negative) (x.toUnits + y.toUnits) 1

instance : Add (Binary F) := ⟨add⟩

instance : Neg (Binary F) := ⟨neg⟩

instance : Sub (Binary F) := ⟨fun x y => x + -y⟩

/-- `x / 2` -/
def half (x : Binary F) : Binary F :=
  if x.isNaN then nan else if x.isInfinite then x else round x.negative x.toUnits 2

/-- the number nearest to an integer -/
def ofInt (n : Int) : Binary F := round false (n * F.one) 1

/-- the number of another format nearest to `x` -/
def convert (x : Binary F) : Binary G :=
  if x.isNaN then nan else if x.isInfinite then infinity x.negative
  else round x.negative (x.toUnits * G.one) F.one

end Binary
end EventMatching
