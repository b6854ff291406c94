/-
Nodes of a quadtree of rectangles.

A `Subtree` is a place in the tree: vacant, or a node with its bounds, its level (the root has level 1), the entries
stored at it and four places below it. Insertion, look-up and removal go down from node to node by `Region.target`, each
on its own. Nodes are made when they are first needed, and a removal drops those that it leaves with nothing in them if
the region says so.
-/
import EventMatching.Quadtree.Descent
import EventMatching.Table

namespace EventMatching

/-- a place in a quadtree -/
inductive Subtree (V : Type) where
  | vacant
  | node (bounds : Box) (level : Nat) (entries : Table Rect V) (nw ne sw se : Subtree V)
deriving DecidableEq

namespace Subtree

variable {V : Type}

instance : Inhabited (Subtree V) := ⟨vacant⟩

/-- a node that holds nothing -/
def leaf (bounds : Box) (level : Nat) : Subtree V := node bounds level .empty vacant vacant vacant vacant

def isVacant : Subtree V → Bool
  | vacant => true
  | node .. => false

/-- the place in a quadrant of a node -/
def child : Subtree V → Quadrant → Subtree V
  | vacant, _ => vacant
  | node _ _ _ nw ne sw se, q => match q with | .nw => nw | .ne => ne | .sw => sw | .se => se

/-- the node with another subtree in one quadrant -/
def setChild : Subtree V → Quadrant → Subtree V → Subtree V
  | vacant, _, _ => vacant
  | node b l es nw ne sw se, q, t =>
    match q with
    | .nw => node b l es t ne sw se
    | .ne => node b l es nw t sw se
    | .sw => node b l es nw ne t se
    | .se => node b l es nw ne sw t

@[simp] theorem child_setChild_self (t u : Subtree V) (q : Quadrant) (h : t ≠ vacant) : (t.setChild q u).child q = u := by
  cases t with
  | vacant => exact absurd rfl h
  | node => cases q <;> rfl

@[simp] theorem child_setChild_of_ne (t u : Subtree V) {q p : Quadrant} (h : p ≠ q) :
    (t.setChild q u).child p = t.child p := by
  cases t with
  | vacant => rfl
  | node => cases q <;> cases p <;> simp_all [child, setChild]

@[simp] theorem setChild_child (t : Subtree V) (q : Quadrant) : t.setChild q (t.child q) = t := by
  cases t with
  | vacant => rfl
  | node => cases q <;> rfl

/-- the subtree, or an empty node if the place is vacant -/
def orLeaf (t : Subtree V) (bounds : Box) (level : Nat) : Subtree V := if t.isVacant then leaf bounds level else t

/-- the node holds no entry and no child -/
def isBare : Subtree V → Bool
  | vacant => true
  | node _ _ es nw ne sw se => es.isEmpty && nw.isVacant && ne.isVacant && sw.isVacant && se.isVacant

/-! ## Measures -/

/-- number of entries -/
def count : Subtree V → Nat
  | vacant => 0
  | node _ _ es nw ne sw se => es.size + (nw.count + ne.count + sw.count + se.count)

/-- no node holds an entry -/
def isEmpty : Subtree V → Bool
  | vacant => true
  | node _ _ es nw ne sw se => es.isEmpty && nw.isEmpty && ne.isEmpty && sw.isEmpty && se.isEmpty

/-- the level of a node, 0 for a vacant place -/
def level : Subtree V → Nat
  | vacant => 0
  | node _ l _ _ _ _ _ => l

/-- number of nodes -/
def nodeCount : Subtree V → Nat
  | vacant => 0
  | node _ _ _ nw ne sw se => 1 + (nw.nodeCount + ne.nodeCount + sw.nodeCount + se.nodeCount)

/-- the deepest level reached by way of the children, or the node's own if it has none -/
def depth : Subtree V → Nat
  | vacant => 0
  | node _ l _ nw ne sw se =>
    if nw.isVacant && ne.isVacant && sw.isVacant && se.isVacant then l
    else max (max nw.depth ne.depth) (max sw.depth se.depth)

theorem nodeCount_child_lt (b : Box) (l : Nat) (es : Table Rect V) (nw ne sw se : Subtree V) (q : Quadrant) :
    ((node b l es nw ne sw se).child q).nodeCount < (node b l es nw ne sw se).nodeCount := by
  cases q <;> simp only [child, nodeCount] <;> omega

/-- bounds the nodes that an insertion can still go through: those that there are, and those that it can make -/
def reach (g : Region) (t : Subtree V) : Nat :=
  t.nodeCount * (g.maxHeight.toNat + 1) + (g.maxHeight.toNat - t.level)

/-- an insertion comes closer to its end with each step down, into a node that there is or one that it makes -/
theorem reach_child_lt {g : Region} {b box : Box} {l : Nat} {q : Quadrant} (h : g.target l b box = some q)
    (es : Table Rect V) (nw ne sw se : Subtree V) :
    (((node b l es nw ne sw se).child q).orLeaf (b.quadrant q) (l + 1)).reach g < (node b l es nw ne sw se).reach g := by
  have hl := Region.lt_maxHeight_of_canDivide (Region.canDivide_of_target h)
  have hc := nodeCount_child_lt b l es nw ne sw se q
  unfold orLeaf
  split
  · have : 1 * (g.maxHeight.toNat + 1) ≤ (node b l es nw ne sw se).nodeCount * (g.maxHeight.toNat + 1) :=
      Nat.mul_le_mul_right _ (by omega)
    simp only [reach, leaf, level, nodeCount] at this ⊢
    omega
  · have := Nat.mul_le_mul_right (g.maxHeight.toNat + 1) (Nat.succ_le_of_lt hc)
    rw [Nat.succ_mul] at this
    simp only [reach]
    omega

/-! ## Entries by rectangle -/

/-- stores a value under a rectangle and returns the value that was there before -/
def insert (g : Region) (r : Rect) (v : V) : Subtree V → Option V × Subtree V
  | vacant => (none, vacant)
  | node b l es nw ne sw se =>
    match _h : g.target l b (.ofRect r) with
    | none => (es.get? r, node b l (es.insert r v) nw ne sw se)
    | some q =>
      let (old, below) := insert g r v (((node b l es nw ne sw se).child q).orLeaf (b.quadrant q) (l + 1))
      (old, (node b l es nw ne sw se).setChild q below)
termination_by t => t.reach g
decreasing_by exact reach_child_lt ‹_› es nw ne sw se

/-- the value under a rectangle -/
def get? (g : Region) (r : Rect) : Subtree V → Option V
  | vacant => none
  | node b l es nw ne sw se =>
    match g.target l b (.ofRect r) with
    | none => es.get? r
    | some q => get? g r ((node b l es nw ne sw se).child q)
termination_by t => t.nodeCount
decreasing_by exact nodeCount_child_lt b l es nw ne sw se q

/-- the place without a node that holds nothing, if such nodes are to be dropped -/
def pruned (drop : Bool) (t : Subtree V) : Subtree V := if drop && t.isBare then vacant else t

/-- removes the entry under a rectangle and returns its value; if there was one and the region says so, nodes below this
one that hold nothing afterwards are dropped on the way back -/
def remove (g : Region) (r : Rect) : Subtree V → Option V × Subtree V
  | vacant => (none, vacant)
  | node b l es nw ne sw se =>
    match g.target l b (.ofRect r) with
    | none => (es.get? r, node b l (es.erase r) nw ne sw se)
    | some q =>
      let (old, below) := remove g r ((node b l es nw ne sw se).child q)
      (old, (node b l es nw ne sw se).setChild q (below.pruned (old.isSome && g.prune)))
termination_by t => t.nodeCount
decreasing_by exact nodeCount_child_lt b l es nw ne sw se q

/-! ## Visiting -/

/-- runs `f` on every entry that meets the query: those of a node in the order in which they came in, then those of its
quadrants in turn. A subtree whose bounds miss the query is skipped. -/
def collect {m : Type → Type} [Monad m] (query : Box) (f : Rect → V → m Unit) : Subtree V → m Unit
  | vacant => pure ()
  | node b _ es nw ne sw se =>
    if b.intersects query then do
      es.entries.forM fun e => if (Box.ofRect e.1).intersects query then f e.1 e.2 else pure ()
      nw.collect query f
      ne.collect query f
      sw.collect query f
      se.collect query f
    else pure ()

end Subtree
end EventMatching
