/-
Rectangles given by their least corner and their extent.

A `Rect` may hold any four numbers; `isValid` says that they are finite and the extent is not negative. `==` compares the
four fields as numbers: it is a key, not a comparison of point sets.
-/
import EventMatching.Numeric.Decimal

namespace EventMatching

/-- the rectangle from (x, y) to (x + w, y + h) -/
structure Rect where
  x : Binary64
  y : Binary64
  w : Binary64
  h : Binary64
deriving DecidableEq

namespace Rect

instance : BEq Rect := ⟨fun a b => a.x == b.x && a.y == b.y && a.w == b.w && a.h == b.h⟩

theorem beq_iff {a b : Rect} : a == b ↔ a.x == b.x ∧ a.y == b.y ∧ a.w == b.w ∧ a.h == b.h := by
  show (_ && _ && _ && _) = true ↔ _
  simp [and_assoc]

/-- equality of rectangles is symmetric and transitive; one with a NaN is equal to nothing -/
instance : PartialEquivBEq Rect where
  symm h := by
    rw [beq_iff] at *
    exact ⟨BEq.symm h.1, BEq.symm h.2.1, BEq.symm h.2.2.1, BEq.symm h.2.2.2⟩
  trans h h' := by
    rw [beq_iff] at *
    exact ⟨BEq.trans h.1 h'.1, BEq.trans h.2.1 h'.2.1, BEq.trans h.2.2.1 h'.2.2.1, BEq.trans h.2.2.2 h'.2.2.2⟩

def maxX (r : Rect) : Binary64 := r.x + r.w

def maxY (r : Rect) : Binary64 := r.y + r.h

/-- all fields are finite and the extent is not negative on either axis -/
def isValid (r : Rect) : Bool :=
  r.x.isFinite && r.y.isFinite && r.w.isFinite && r.h.isFinite && Binary.zero.le r.w && Binary.zero.le r.h

def display (r : Rect) : String :=
  "XYWHRectangle(x=" ++ r.x.text ++ ", y=" ++ r.y.text ++ ", w=" ++ r.w.text ++ ", h=" ++ r.h.text ++ ")"

end Rect
end EventMatching
