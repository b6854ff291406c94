/-
Regions: the area that an index of rectangles covers, and how far it is divided.

A `Region` may hold any numbers; `Region.validate` says on which of them an index can be built.
`key` identifies a region in texts that name an index, so the two zeros give one key.
-/
import EventMatching.Geometry.Box

namespace EventMatching

/-- an area, the greatest number of levels of a tree over it, the least size of a node below its root, and whether
nodes that hold nothing are dropped -/
structure Region where
  x : Binary64
  y : Binary64
  width : Binary64
  height : Binary64
  maxHeight : UInt32 := 20
  minNodeSize : Binary64 := Binary.zero
  prune : Bool := false
deriving DecidableEq

namespace Region

instance : BEq Region := ⟨fun a b =>
  a.x == b.x && a.y == b.y && a.width == b.width && a.height == b.height && a.maxHeight == b.maxHeight &&
    a.minNodeSize == b.minNodeSize && a.prune == b.prune⟩

def rect (g : Region) : Rect := ⟨g.x, g.y, g.width, g.height⟩

/-- the area as a box -/
def bounds (g : Region) : Box := .ofRect g.rect

/-- the text of a truth value -/
def flag (b : Bool) : String := if b then "true" else "false"

def display (g : Region) : String :=
  "QuadTreeConfig(x=" ++ g.x.text ++ ", y=" ++ g.y.text ++ ", width=" ++ g.width.text ++ ", height=" ++ g.height.text ++
    ", max_tree_height=" ++ toString g.maxHeight ++ ", min_node_size=" ++ g.minNodeSize.text ++
    ", prune=" ++ flag g.prune ++ ")"

/-- the texts of the seven fields, zeros without their sign -/
def keyFields (g : Region) : List String :=
  [g.x.unsignedZero.text, g.y.unsignedZero.text, g.width.unsignedZero.text, g.height.unsignedZero.text,
    toString g.maxHeight, g.minNodeSize.unsignedZero.text, flag g.prune]

/-- the fields in one text, which is the same for equal regions -/
def key (g : Region) : String := ",".intercalate g.keyFields

end Region
end EventMatching
