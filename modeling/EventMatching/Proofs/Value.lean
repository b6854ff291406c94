/-
Equality of values and of constants.

`Value.content` is what `==` looks at: an integer without its type, a decimal as a canonical double, or the value itself.
Values are equal just if their contents are the same (`Value.beq_iff`), so equality is an equivalence on values, and on
constants it lacks only reflexivity, at rectangles with a NaN.
-/
import EventMatching.Filter.Constant
import EventMatching.Proofs.Numeric.Alike

namespace EventMatching

namespace Value

/-- what equality of values looks at -/
inductive Content where
  | null
  | bool (b : Bool)
  | integer (n : Int)
  | decimal (x : Binary64)
  | text (s : String)
deriving DecidableEq

def content : Value → Content
  | null => .null
  | bool b => .bool b
  | int _ n _ => .integer n
  | single x => .decimal x.convert.canonical
  | double x => .decimal x.canonical
  | text s => .text s

theorem decimal_same (x y : Binary64) : ((x.isNaN && y.isNaN) || x == y) = decide (x.canonical = y.canonical) := by
  rw [Bool.eq_iff_iff, Bool.or_eq_true, Bool.and_eq_true, decide_eq_true_eq]
  exact Binary.alike_iff.symm

theorem beq_iff {v w : Value} : v == w ↔ v.content = w.content := by
  show v.same w = true ↔ _
  cases v <;> cases w <;> simp [same, asInteger, asDecimal, content, decimal_same]

/-- equality of values is an equivalence -/
instance : EquivBEq Value where
  rfl := beq_iff.2 rfl
  symm h := beq_iff.2 (beq_iff.1 h).symm
  trans h h' := beq_iff.2 ((beq_iff.1 h).trans (beq_iff.1 h'))

end Value

theorem Rect.beq_self_of_isValid {r : Rect} (h : r.isValid = true) : r == r := by
  simp only [isValid, Bool.and_eq_true] at h
  obtain ⟨⟨⟨⟨⟨hx, hy⟩, hw⟩, hh⟩, -⟩, -⟩ := h
  exact Rect.beq_iff.2 ⟨Binary.beq_self_of_isFinite hx, Binary.beq_self_of_isFinite hy, Binary.beq_self_of_isFinite hw,
    Binary.beq_self_of_isFinite hh⟩

namespace Constant

theorem value_beq (v w : Value) : (value v == value w) = (v == w) := rfl

theorem rect_beq (r s : Rect) : (rect r == rect s) = (r == s) := rfl

/-- equality of constants is symmetric and transitive -/
instance : PartialEquivBEq Constant where
  symm {a b} h := by
    match a, b with
    | value v, value w =>
      have h : v == w := h
      exact (BEq.symm h : w == v)
    | rect r, rect s =>
      have h : r == s := h
      exact (BEq.symm h : s == r)
    | value _, rect _ | rect _, value _ => cases h
  trans {a b c} h h' := by
    match a, b, c with
    | value u, value v, value w =>
      have h : u == v := h
      have h' : v == w := h'
      exact (BEq.trans h h' : u == w)
    | rect r, rect s, rect t =>
      have h : r == s := h
      have h' : s == t := h'
      exact (BEq.trans h h' : r == t)
    | value _, rect _, _ | rect _, value _, _ => cases h
    | value _, value _, rect _ | rect _, rect _, value _ => cases h'

end Constant
end EventMatching
