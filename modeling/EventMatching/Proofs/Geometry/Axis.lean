/-
Boxes axis by axis.

Along an `Axis` a box is an interval from `low` to `high` with a `middle`, and a quadrant takes the part of it on one side of
the middle (`low_quadrant`, `high_quadrant`). The sides that it takes tell the quadrant, and every choice of sides is one of
a quadrant (`Quadrant.ext`, `Quadrant.beyond_ofSides`). A box contains a point or another box if it does so along both axes
(`containsPoint_iff`, `contains_iff`).
-/
import EventMatching.Geometry.Box

namespace EventMatching

/-- one of the two directions in which a box extends -/
inductive Axis where
  | horizontal
  | vertical
deriving DecidableEq

namespace Axis

/-- one thing for each axis -/
def pick {α : Type} (h v : α) : Axis → α
  | horizontal => h
  | vertical => v

theorem forall_iff {p : Axis → Prop} : (∀ axis, p axis) ↔ p horizontal ∧ p vertical := by
  refine ⟨fun h => ⟨h _, h _⟩, fun h axis => ?_⟩
  cases axis with
  | horizontal => exact h.1
  | vertical => exact h.2

end Axis

namespace Quadrant

/-- the quadrant takes what is beyond the middle on this axis -/
def beyond : Quadrant → Axis → Bool
  | nw => Axis.pick false false
  | ne => Axis.pick true false
  | sw => Axis.pick false true
  | se => Axis.pick true true

/-- the quadrant that takes these sides -/
def ofSides (side : Axis → Bool) : Quadrant :=
  if side .horizontal then if side .vertical then se else ne
  else if side .vertical then sw else nw

@[simp] theorem beyond_ofSides (side : Axis → Bool) : (ofSides side).beyond = side := by
  funext axis
  unfold ofSides
  cases axis <;> split <;> split <;> simp_all [beyond, Axis.pick]

@[simp] theorem ofSides_beyond (q : Quadrant) : ofSides q.beyond = q := by cases q <;> rfl

theorem ext {q p : Quadrant} (h : ∀ axis, q.beyond axis = p.beyond axis) : q = p := by
  rw [← ofSides_beyond q, funext h, ofSides_beyond]

theorem mem_all (q : Quadrant) : q ∈ all := by cases q <;> decide

end Quadrant

namespace Box

def low (b : Box) : Axis → Binary64 := Axis.pick b.minX b.minY

def high (b : Box) : Axis → Binary64 := Axis.pick b.maxX b.maxY

/-- where the box is cut along an axis -/
def middle (b : Box) (axis : Axis) : Binary64 := (b.low axis + b.high axis).half

/-- the length of the box along an axis -/
def extent (b : Box) (axis : Axis) : Binary64 := b.high axis - b.low axis

theorem low_quadrant (b : Box) (q : Quadrant) (axis : Axis) :
    (b.quadrant q).low axis = if q.beyond axis then b.middle axis else b.low axis := by
  cases q <;> cases axis <;> rfl

theorem high_quadrant (b : Box) (q : Quadrant) (axis : Axis) :
    (b.quadrant q).high axis = if q.beyond axis then b.high axis else b.middle axis := by
  cases q <;> cases axis <;> rfl

theorem contains_iff {b inner : Box} :
    b.contains inner = true ↔
      ∀ axis, (b.low axis).le (inner.low axis) = true ∧ (inner.high axis).le (b.high axis) = true := by
  rw [Axis.forall_iff]
  simp only [contains, Bool.and_eq_true, and_assoc]
  rfl

theorem containsPoint_iff {b : Box} {x y : Binary64} :
    b.containsPoint x y = true ↔
      ∀ axis, (b.low axis).le (Axis.pick x y axis) = true ∧ (Axis.pick x y axis).le (b.high axis) = true := by
  rw [Axis.forall_iff]
  simp only [containsPoint, Bool.and_eq_true, and_assoc]
  rfl

end Box
end EventMatching
