/-
Boxes given by their corners, and their quadrants.

Boxes are closed: touching edges contain and intersect. All tests are comparisons of corners, hence false if they meet
NaN. A box is cut into quadrants at its centre, which is computed with rounding; the y axis grows downward, so the
north-west quadrant holds the least corner.
-/
import EventMatching.Geometry.Rect

namespace EventMatching

/-- the box from (minX, minY) to (maxX, maxY) -/
structure Box where
  minX : Binary64
  minY : Binary64
  maxX : Binary64
  maxY : Binary64
deriving DecidableEq

/-- one of the four quarters of a box -/
inductive Quadrant where
  | nw | ne | sw | se
deriving DecidableEq

namespace Quadrant

/-- all quadrants, in the order in which they are visited -/
def all : List Quadrant := [nw, ne, sw, se]

/-- the place of a quadrant in `all` -/
def index : Quadrant → Nat
  | nw => 0 | ne => 1 | sw => 2 | se => 3

end Quadrant

namespace Box

instance : BEq Box := ⟨fun a b => a.minX == b.minX && a.minY == b.minY && a.maxX == b.maxX && a.maxY == b.maxY⟩

/-- the box of a rectangle, its greatest corner being computed with rounding -/
def ofRect (r : Rect) : Box := ⟨r.x, r.y, r.maxX, r.maxY⟩

def width (b : Box) : Binary64 := b.maxX - b.minX

def height (b : Box) : Binary64 := b.maxY - b.minY

/-- the rectangle with the same least corner and the extent of the box -/
def toRect (b : Box) : Rect := ⟨b.minX, b.minY, b.width, b.height⟩

def centerX (b : Box) : Binary64 := (b.minX + b.maxX).half

def centerY (b : Box) : Binary64 := (b.minY + b.maxY).half

/-- the point (x, y) lies in the box -/
def containsPoint (b : Box) (x y : Binary64) : Bool :=
  b.minX.le x && x.le b.maxX && b.minY.le y && y.le b.maxY

/-- `inner` lies in the box -/
def contains (b inner : Box) : Bool :=
  b.minX.le inner.minX && inner.maxX.le b.maxX && b.minY.le inner.minY && inner.maxY.le b.maxY

/-- the two boxes have a point in common, touching included -/
def intersects (b other : Box) : Bool :=
  b.minX.le other.maxX && other.minX.le b.maxX && b.minY.le other.maxY && other.minY.le b.maxY

/-- the quarter of the box on one side of its centre on each axis -/
def quadrant (b : Box) : Quadrant → Box
  | .nw => ⟨b.minX, b.minY, b.centerX, b.centerY⟩
  | .ne => ⟨b.centerX, b.minY, b.maxX, b.centerY⟩
  | .sw => ⟨b.minX, b.centerY, b.centerX, b.maxY⟩
  | .se => ⟨b.centerX, b.centerY, b.maxX, b.maxY⟩

def quadrants (b : Box) : List Box := Quadrant.all.map b.quadrant

def display (b : Box) : String :=
  "BoundingBox(" ++ b.minX.text ++ ", " ++ b.minY.text ++ ", " ++ b.maxX.text ++ ", " ++ b.maxY.text ++ ")"

end Box
end EventMatching
