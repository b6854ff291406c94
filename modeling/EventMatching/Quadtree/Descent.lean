/-
Descent: where in a quadtree a box goes from a node.

A box belongs to the deepest node that holds it. From a node it goes down to the one quadrant that contains it, as long as
the node may be divided and exactly one quadrant does; a box that touches a midline from both sides, or crosses it, stays.
-/
import EventMatching.Region

namespace EventMatching
namespace Region

/-- a node of this level and with these bounds may have children: the levels are not used up, its centre is strictly
inside it, so that the quadrants are smaller, and the quadrants are not smaller than allowed -/
def canDivide (g : Region) (level : Nat) (b : Box) : Bool :=
  decide (level < g.maxHeight.toNat) &&
    (b.minX.lt b.centerX && b.centerX.lt b.maxX && b.minY.lt b.centerY && b.centerY.lt b.maxY) &&
    (g.minNodeSize.le b.width.half && g.minNodeSize.le b.height.half)

/-- the one quadrant of `bounds` that contains the box; none if no or more than one quadrant does -/
def quadrantOf (bounds box : Box) : Option Quadrant :=
  match Quadrant.all.filter fun q => (bounds.quadrant q).contains box with
  | [q] => some q
  | _ => none

/-- where a box goes from a node: down to a quadrant, or nowhere if it stays -/
def target (g : Region) (level : Nat) (bounds box : Box) : Option Quadrant :=
  if g.canDivide level bounds then quadrantOf bounds box else none

theorem canDivide_of_target {g : Region} {l : Nat} {b box : Box} {q : Quadrant} (h : g.target l b box = some q) :
    g.canDivide l b = true := by
  unfold target at h
  split at h
  · assumption
  · cases h

theorem lt_maxHeight_of_canDivide {g : Region} {l : Nat} {b : Box} (h : g.canDivide l b = true) :
    l < g.maxHeight.toNat := by
  simp only [canDivide, Bool.and_eq_true, decide_eq_true_eq] at h
  exact h.1.1

end Region
end EventMatching
