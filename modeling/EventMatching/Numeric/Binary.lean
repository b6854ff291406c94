/-
Floating point numbers of a binary format, and their comparisons.

A `Binary F` is a sign and a magnitude code, that is, exactly a bit pattern of the format; `=` tells every two patterns
apart. The comparisons of the format are `==`, `lt` and `le`: all are false if an operand is no number, and otherwise
compare `rank`, the code with its sign, so the two zeros are equal.
-/
import EventMatching.Numeric.BinaryFormat

namespace EventMatching

/-- a bit pattern of the format: the sign bit, and the other bits as one magnitude code -/
structure Binary (F : BinaryFormat) where
  negative : Bool
  code : Nat
  code_lt : code < F.codes
deriving DecidableEq

/-- 64 bit floating point numbers -/
abbrev Binary64 : Type := Binary .double

/-- 32 bit floating point numbers -/
abbrev Binary32 : Type := Binary .single

namespace Binary

variable {F : BinaryFormat}

/-- the number with the given sign and a magnitude code up to infinity's -/
def ofCode (negative : Bool) (code : Nat) (h : code ≤ F.top) : Binary F :=
  ⟨negative, code, Nat.lt_of_le_of_lt h F.top_lt_codes⟩

/-- positive zero -/
def zero : Binary F := ofCode false 0 (Nat.zero_le _)

/-- infinity of the given sign -/
def infinity (negative : Bool) : Binary F := ofCode negative F.top (Nat.le_refl _)

/-- the quiet pattern that is no number, with its sign clear -/
def nan : Binary F :=
  ⟨false, F.top + F.step / 2, by
    have := F.top_add_step
    have := F.step_pos
    omega⟩

/-- the pattern with these bits, the sign being the highest; further bits are dropped -/
def ofBits (bits : Nat) : Binary F :=
  ⟨bits / F.codes % 2 == 1, bits % F.codes, Nat.mod_lt _ F.codes_pos⟩

/-- the bits of the pattern, the sign being the highest -/
def toBits (x : Binary F) : Nat := (if x.negative then F.codes else 0) + x.code

def isNaN (x : Binary F) : Bool := F.top < x.code

def isInfinite (x : Binary F) : Bool := x.code == F.top

def isFinite (x : Binary F) : Bool := x.code < F.top

/-- the place of a number on the line: its code, with its sign -/
def rank (x : Binary F) : Int := if x.negative then -(x.code : Int) else x.code

/-- equality of numbers: false on NaN, and true of the two zeros -/
instance : BEq (Binary F) := ⟨fun x y => !x.isNaN && !y.isNaN && decide (x.rank = y.rank)⟩

/-- `x < y`, false on NaN -/
def lt (x y : Binary F) : Bool := !x.isNaN && !y.isNaN && decide (x.rank < y.rank)

/-- `x ≤ y`, false on NaN -/
def le (x y : Binary F) : Bool := !x.isNaN && !y.isNaN && decide (x.rank ≤ y.rank)

/-- the same number with the sign bit turned over, also on NaN -/
def neg (x : Binary F) : Binary F := { x with negative := !x.negative }

/-- the number with a positive zero in place of a negative one -/
def unsignedZero (x : Binary F) : Binary F := if x == zero then zero else x

/-- one pattern for each class of numbers that count as one: positive zero for zeros, the quiet pattern for NaN -/
def canonical (x : Binary F) : Binary F := if x.isNaN then nan else x.unsignedZero

theorem beq_iff {x y : Binary F} : x == y ↔ x.isNaN = false ∧ y.isNaN = false ∧ x.rank = y.rank := by
  simp [BEq.beq, and_assoc]

theorem lt_iff {x y : Binary F} : x.lt y ↔ x.isNaN = false ∧ y.isNaN = false ∧ x.rank < y.rank := by
  simp [lt, and_assoc]

theorem le_iff {x y : Binary F} : x.le y ↔ x.isNaN = false ∧ y.isNaN = false ∧ x.rank ≤ y.rank := by
  simp [le, and_assoc]

/-- equality of numbers is symmetric and transitive; NaN is equal to nothing -/
instance : PartialEquivBEq (Binary F) where
  symm h := by rw [beq_iff] at *; exact ⟨h.2.1, h.1, h.2.2.symm⟩
  trans h h' := by rw [beq_iff] at *; exact ⟨h.1, h'.2.1, h.2.2.trans h'.2.2⟩

theorem beq_self {x : Binary F} : x == x ↔ x.isNaN = false := by simp [beq_iff]

end Binary
end EventMatching
