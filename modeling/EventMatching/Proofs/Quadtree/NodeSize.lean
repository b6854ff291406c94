/-
The least size of a node.

A node is divided if half of its extent is at least the least node size. Its quadrants get the extents on either side of its
middle, and the middle is rounded, so one quadrant may be narrower than half of the node and smaller than allowed
(`undersized_node`). It is not smaller if the middle is exact, and by no more than three half spacings if not
(`extent_of_canDivide`), unless the extent of the node overflows, which only that of the root may do
(`Represented.isFinite_extent`). A region is `Bisectable` if its ends are on a grid so coarse that every middle at every level
is exact; over such a region no node but the root is ever smaller than allowed (`extents_of_run`).
-/
import EventMatching.Proofs.Quadtree.Proper
import Mathlib.Data.List.Induction

namespace EventMatching

namespace Region

variable {g : Region} {l : Nat} {b : Box}

theorem extent_quadrant (b : Box) (q : Quadrant) (axis : Axis) :
    (b.quadrant q).extent axis = Binary.side (b.low axis) (b.high axis) (q.beyond axis) := by
  unfold Box.extent Binary.side
  rw [Box.low_quadrant, Box.high_quadrant]
  split <;> rfl

/-- what is asked of the extent of a node that is divided -/
theorem le_half_of_canDivide (h : g.canDivide l b = true) (axis : Axis) : g.minNodeSize.le (b.extent axis).half = true := by
  simp only [canDivide, Bool.and_eq_true] at h
  obtain ⟨-, hwidth, hheight⟩ := h
  cases axis with
  | horizontal => exact hwidth
  | vertical => exact hheight

theorem isFinite_extent_of_canDivide (h : g.canDivide l b = true) (q : Quadrant) (axis : Axis) :
    ((b.quadrant q).extent axis).isFinite = true := by
  rw [extent_quadrant]
  exact (apart_of_canDivide h axis).isFinite_side (q.beyond axis)

/-- **How small a quadrant may be**: no smaller than the least node size if the middle is exact, and otherwise by no more than
half a spacing for each of the three numbers that are rounded. -/
theorem extent_of_canDivide (h : g.canDivide l b = true) (q : Quadrant) {axis : Axis}
    (hd : (b.extent axis).isFinite = true) :
    (2 * (b.middle axis).toUnits = (b.low axis).toUnits + (b.high axis).toUnits →
        g.minNodeSize.le ((b.quadrant q).extent axis) = true) ∧
      2 * g.minNodeSize.toUnits ≤ 2 * ((b.quadrant q).extent axis).toUnits + (b.middle axis).spacing +
        (b.extent axis).half.spacing + ((b.quadrant q).extent axis).spacing := by
  have hapart := apart_of_canDivide h axis
  obtain ⟨hnumber, -, hhalf⟩ := Binary.le_iff.1 (le_half_of_canDivide h axis)
  have hside := hapart.isFinite_side (q.beyond axis)
  rw [extent_quadrant]
  constructor
  · intro hexact
    have hrank := hapart.side_of_exact hd hexact (q.beyond axis)
    exact Binary.le_iff.2 ⟨hnumber, (Binary.isFinite_iff.1 hside).1, hrank ▸ hhalf⟩
  · have hsize : g.minNodeSize.toUnits ≤ (b.extent axis).half.toUnits := Binary.toUnits_le_iff.2 hhalf
    have hloss := hapart.half_extent_le hd (q.beyond axis)
    have hmiddle : (b.middle axis).spacing = (b.low axis + b.high axis).half.spacing := rfl
    have hextent : b.extent axis = b.high axis - b.low axis := rfl
    rw [hmiddle]
    rw [hextent] at hsize ⊢
    omega

/-! ## Regions on a grid -/

/-- the ends of the box along an axis are so coarse that it can be bisected exactly from level to level -/
def Coarse (g : Region) (axis : Axis) (t l : Nat) (b : Box) : Prop :=
  Binary.Coarse t (g.maxHeight.toNat - l) (b.low axis) ∧ Binary.Coarse t (g.maxHeight.toNat - l) (b.high axis)

instance (g : Region) (axis : Axis) (t l : Nat) (b : Box) : Decidable (g.Coarse axis t l b) := by
  unfold Coarse
  infer_instance

/-- the extent of the region is finite, and its ends are on a grid coarse enough for all levels -/
structure Bisectable (g : Region) (axis : Axis) : Prop where
  finite : (g.bounds.extent axis).isFinite = true
  coarse : ∃ t, g.Coarse axis t 1 g.bounds

theorem Coarse.middle {axis : Axis} {t : Nat} (hb : g.Coarse axis t l b) (h : g.canDivide l b = true) :
    2 * (b.middle axis).toUnits = (b.low axis).toUnits + (b.high axis).toUnits ∧
      Binary.Coarse t (g.maxHeight.toNat - (l + 1)) (b.middle axis) := by
  have hl := lt_maxHeight_of_canDivide h
  obtain ⟨hlow, hhigh⟩ := hb
  rw [show g.maxHeight.toNat - l = g.maxHeight.toNat - (l + 1) + 1 by omega] at hlow hhigh
  exact Binary.Coarse.middle (apart_of_canDivide h axis) hlow hhigh

/-- the quadrants are once less coarse, as are the levels that are left -/
theorem Coarse.quadrant {axis : Axis} {t : Nat} (hb : g.Coarse axis t l b) (h : g.canDivide l b = true) (q : Quadrant) :
    g.Coarse axis t (l + 1) (b.quadrant q) := by
  have hl := lt_maxHeight_of_canDivide h
  obtain ⟨-, hmiddle⟩ := hb.middle h
  obtain ⟨hlow, hhigh⟩ := hb
  rw [show g.maxHeight.toNat - l = g.maxHeight.toNat - (l + 1) + 1 by omega] at hlow hhigh
  unfold Coarse
  rw [Box.low_quadrant, Box.high_quadrant]
  split
  · exact ⟨hmiddle, hhigh.finer⟩
  · exact ⟨hlow.finer, hmiddle⟩

end Region

namespace Quadtree

open Subtree

variable {V : Type} {g : Region}

/-- what holds of the region, and of the quadrants of a box that is divided if of the box, holds of all nodes -/
theorem Represented.induction {t : Subtree V} (h : Represented g t) {p : Nat → Box → Prop} (root : p 1 g.bounds)
    (down : ∀ l b q, g.canDivide l b = true → p l b → p (l + 1) (b.quadrant q)) {path : List Quadrant} {n : Node V}
    (hn : t.nodeAt path = some n) : p n.level n.bounds := by
  induction path using List.reverseRecOn generalizing n with
  | nil =>
    obtain ⟨n', hn', hb, hl⟩ := h.root
    obtain rfl := Option.some.inj (hn.symm.trans hn')
    rw [hb, hl]
    exact root
  | append_singleton path q ih =>
    obtain ⟨above, habove, hdiv, hb, hl⟩ := h.parent path q n hn
    rw [hb, hl]
    exact down _ _ q hdiv (ih habove)

/-- the extent of every node is finite, but for the root if that of the region is not -/
theorem Represented.isFinite_extent {t : Subtree V} (h : Represented g t) {path : List Quadrant} {n : Node V}
    (hn : t.nodeAt path = some n) {axis : Axis} (hroot : path = [] → (g.bounds.extent axis).isFinite = true) :
    (n.bounds.extent axis).isFinite = true := by
  rcases List.eq_nil_or_concat path with rfl | ⟨above, q, rfl⟩
  · obtain ⟨n', hn', hb, -⟩ := h.root
    obtain rfl := Option.some.inj (hn.symm.trans hn')
    rw [hb]
    exact hroot rfl
  · rw [List.concat_eq_append] at hn
    obtain ⟨n', -, hdiv, hb, -⟩ := h.parent above q n hn
    rw [hb]
    exact Region.isFinite_extent_of_canDivide hdiv q axis

/-! ## Main result -/

/-- **How small a node may be.** After any calls on a new tree, along either axis the extent of every node but the root is
finite. It is at least the least node size if the middle of the node above is exact, and in any case less than that by no more
than half the spacings of three numbers, that middle, half of the extent of the node above, and its own extent; for quadrants
of the root this takes a region whose extent does not overflow. If the region is bisectable along an axis, then along it the
extent of every node but the root is at least the least node size. -/
theorem extents_of_run {t₀ : Quadtree V} (h : new g = .ok t₀) (ops : List (Op V)) :
    let t := t₀.run ops
    (∀ path q c, t.root.nodeAt (path ++ [q]) = some c → ∃ n, t.root.nodeAt path = some n ∧
      ∀ axis, (c.bounds.extent axis).isFinite = true ∧
        ((path = [] → (g.bounds.extent axis).isFinite = true) →
          (2 * (n.bounds.middle axis).toUnits = (n.bounds.low axis).toUnits + (n.bounds.high axis).toUnits →
            g.minNodeSize.le (c.bounds.extent axis) = true) ∧
          2 * g.minNodeSize.toUnits ≤ 2 * (c.bounds.extent axis).toUnits + (n.bounds.middle axis).spacing +
            (n.bounds.extent axis).half.spacing + (c.bounds.extent axis).spacing)) ∧
    ∀ axis, g.Bisectable axis → ∀ path c, path ≠ [] → t.root.nodeAt path = some c →
      g.minNodeSize.le (c.bounds.extent axis) = true := by
  intro t
  have ha : Agrees g t (reference g ops) := by
    rw [show t = (empty g).run ops by rw [← new_eq_ok h]]
    exact run_empty_agrees g ops
  have hr : Represented g t.root := ha.region ▸ ha.sound.represented
  refine ⟨fun path q c hc => ?_, fun axis hg path c hne hc => ?_⟩
  · obtain ⟨n, hn, hdiv, hb, -⟩ := hr.parent path q c hc
    rw [hb]
    refine ⟨n, hn, fun axis => ⟨Region.isFinite_extent_of_canDivide hdiv q axis, fun hroot => ?_⟩⟩
    exact Region.extent_of_canDivide hdiv q (hr.isFinite_extent hn hroot)
  · obtain ⟨s, hcoarse⟩ := hg.coarse
    obtain ⟨above, q, rfl⟩ := (List.eq_nil_or_concat path).resolve_left hne
    rw [List.concat_eq_append] at hc
    obtain ⟨n, hn, hdiv, hb, -⟩ := hr.parent above q c hc
    -- the node above has coarse ends, since the region has
    have habove : g.Coarse axis s n.level n.bounds :=
      hr.induction (p := g.Coarse axis s) hcoarse (fun l b q hdiv hp => hp.quadrant hdiv q) hn
    rw [hb]
    exact (Region.extent_of_canDivide hdiv q (hr.isFinite_extent hn fun _ => hg.finite)).1 (habove.middle hdiv).1

/-- a square in which a node may be no smaller than a fifth of it -/
def fifths : Region := { square with minNodeSize := .ofInt 20 }

def fifthsOps : List (Op Nat) := [.insert (diagonal 1) 1]

/-- a region that is three numbers wide, and in which a node may be no narrower than half of that -/
def uneven : Region := { x := .ofInt 4503599627370496, y := .zero, width := .ofInt 3, height := .ofInt 8,
                         minNodeSize := (Binary.ofInt 3).half }

def unevenOps : List (Op Nat) := [.insert ⟨.ofInt 4503599627370498, .ofInt 1, .ofInt 1, .ofInt 1⟩ 1]

/-- a node two steps down over a bisectable region, and one over another that may be too small but not by much -/
theorem extents_on_fifths :
    (new fifths = .ok (empty fifths : Quadtree Nat) ∧ fifths.Bisectable .horizontal ∧
      ∃ c, ((empty fifths).run fifthsOps).root.nodeAt [.nw, .nw] = some c ∧
        fifths.minNodeSize.le (c.bounds.extent .horizontal) = true) ∧
      new uneven = .ok (empty uneven : Quadtree Nat) ∧
      ∃ n c, ((empty uneven).run unevenOps).root.nodeAt [] = some n ∧
        ((empty uneven).run unevenOps).root.nodeAt [.ne] = some c ∧
        2 * uneven.minNodeSize.toUnits ≤ 2 * (c.bounds.extent .horizontal).toUnits + (n.bounds.middle .horizontal).spacing +
          (n.bounds.extent .horizontal).half.spacing + (c.bounds.extent .horizontal).spacing := by
  have hfifths : new fifths = .ok (empty fifths : Quadtree Nat) := new_of_validate (by decide +kernel)
  have huneven : new uneven = .ok (empty uneven : Quadtree Nat) := new_of_validate (by decide +kernel)
  have hbisectable : fifths.Bisectable .horizontal := ⟨by decide +kernel, 1057, by decide +kernel⟩
  obtain ⟨-, hsize⟩ := extents_of_run hfifths fifthsOps
  obtain ⟨hloss, -⟩ := extents_of_run huneven unevenOps
  obtain ⟨inner, hinner⟩ : ∃ c, ((empty fifths).run fifthsOps).root.nodeAt [.nw, .nw] = some c :=
    Option.isSome_iff_exists.1 (by decide +kernel)
  obtain ⟨child, hchild⟩ : ∃ c, ((empty uneven).run unevenOps).root.nodeAt [.ne] = some c :=
    Option.isSome_iff_exists.1 (by decide +kernel)
  obtain ⟨root, hroot, hextent⟩ := hloss [] .ne child hchild
  obtain ⟨-, hnarrow⟩ := (hextent .horizontal).2 fun _ => by decide +kernel
  exact ⟨⟨hfifths, hbisectable, inner, hinner, hsize .horizontal hbisectable [.nw, .nw] inner (by simp) hinner⟩,
    huneven, root, child, hroot, hchild, hnarrow⟩

/-- **A node smaller than allowed**: the middle of the region is rounded up, and what is beyond it is one number wide. -/
theorem undersized_node :
    new uneven = .ok (empty uneven : Quadtree Nat) ∧
      ∃ c, ((empty uneven).run unevenOps).root.nodeAt [.ne] = some c ∧
        (c.bounds.extent .horizontal).lt uneven.minNodeSize = true := by
  have hnarrow : ((empty uneven).run unevenOps).root.nodeAt [.ne] |>.any fun c =>
      (c.bounds.extent .horizontal).lt uneven.minNodeSize := by
    decide +kernel
  exact ⟨new_of_validate (by decide +kernel), (Option.any_eq_true _ _).1 hnarrow⟩

end Quadtree
end EventMatching
