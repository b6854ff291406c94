/-
Quadtrees: maps from rectangles in a region to values, that find all rectangles meeting a query.

A tree takes only valid rectangles whose box lies in its region. Rectangles are told apart by `==` on their fields. Each is
stored at the deepest node that holds its box (`Region.target`), so equal rectangles always meet at one node.
-/
import EventMatching.Validation
import EventMatching.Quadtree.Subtree

namespace EventMatching

structure Quadtree (V : Type) where
  region : Region
  root : Subtree V
deriving DecidableEq

namespace Quadtree

variable {V : Type}

/-- the empty tree over a region: a root of level 1 and nothing else -/
def empty (g : Region) : Quadtree V := ⟨g, .leaf g.bounds 1⟩

/-- the empty tree over a region, if one can be built on it -/
def new (g : Region) : Except TreeError (Quadtree V) :=
  match g.validate with
  | .ok () => .ok (empty g)
  | .error e => .error (.invalidRegion e.message)

/-- the rectangle lies in the region of the tree -/
def covers (t : Quadtree V) (r : Rect) : Bool := t.region.bounds.contains (.ofRect r)

/-- the value under a rectangle -/
def get? (t : Quadtree V) (r : Rect) : Option V := if t.covers r then t.root.get? t.region r else none

/-- stores a value under a rectangle and returns the value that was there before -/
def insert (t : Quadtree V) (r : Rect) (v : V) : Except TreeError (Option V × Quadtree V) :=
  if !r.isValid then .error (.invalidRect r.display)
  else if !t.covers r then .error (.outOfRegion r t.region.rect)
  else
    let (old, root) := t.root.insert t.region r v
    .ok (old, { t with root })

/-- removes the entry under a rectangle and returns its value -/
def remove (t : Quadtree V) (r : Rect) : Option V × Quadtree V :=
  if t.covers r then
    let (old, root) := t.root.remove t.region r
    (old, { t with root })
  else (none, t)

/-- runs `f` on every entry whose box meets the box of the query, which must not have a negative extent -/
def collect {m : Type → Type} [Monad m] (t : Quadtree V) (query : Rect) (f : Rect → V → m Unit) : m Unit :=
  let box := Box.ofRect query
  if Binary.zero.le box.width && Binary.zero.le box.height then t.root.collect box f else pure ()

def count (t : Quadtree V) : Nat := t.root.count

def isEmpty (t : Quadtree V) : Bool := t.root.isEmpty

def nodeCount (t : Quadtree V) : Nat := t.root.nodeCount

def depth (t : Quadtree V) : Nat := t.root.depth

end Quadtree
end EventMatching
