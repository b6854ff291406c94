/-
The box of a valid region.

Validation looks at origins and extents one by one, and the tree at their rounded sums. So a valid region may have a box that
is not `Proper`: its far corner may be infinite, or may be no further than the near one where the extent is lost in rounding
(`improper_of_validate`). Otherwise nothing is wrong with the box: its near corner is finite, and its far corner is no number
below that and no negative infinity. It is proper just if on both axes the exact sum `Advances` (`box_of_validate`). What is
not proper is not divided, so a tree over such a region keeps all entries at its root (`Sound.nodeCount_of_improper`).
-/
import EventMatching.Proofs.Numeric.Middle
import EventMatching.Proofs.Quadtree.Paths
import EventMatching.Proofs.Quadtree.Tiling

namespace EventMatching

namespace Rect

/-- where the rectangle begins along an axis -/
def origin (r : Rect) : Axis → Binary64 := Axis.pick r.x r.y

/-- how far the rectangle extends along an axis -/
def extent (r : Rect) : Axis → Binary64 := Axis.pick r.w r.h

end Rect

namespace Box

/-- the corners are finite, and the far one is beyond the near one on both axes -/
structure Proper (b : Box) : Prop where
  near : ∀ axis, (b.low axis).isFinite = true
  far : ∀ axis, (b.high axis).isFinite = true
  extended : ∀ axis, (b.low axis).lt (b.high axis) = true

theorem low_ofRect (r : Rect) (axis : Axis) : (ofRect r).low axis = r.origin axis := by cases axis <;> rfl

theorem high_ofRect (r : Rect) (axis : Axis) : (ofRect r).high axis = r.origin axis + r.extent axis := by
  cases axis <;> rfl

end Box

namespace Region

variable {g : Region} {l : Nat} {b : Box}

theorem apart_of_canDivide (h : g.canDivide l b = true) (axis : Axis) : Binary.Apart (b.low axis) (b.high axis) :=
  ⟨(middle_of_canDivide h axis).1, (middle_of_canDivide h axis).2⟩

/-- only proper boxes are divided -/
theorem proper_of_canDivide (h : g.canDivide l b = true) : b.Proper where
  near axis := (apart_of_canDivide h axis).isFinite_left
  far axis := (apart_of_canDivide h axis).isFinite_right
  extended axis := (apart_of_canDivide h axis).lt

/-- the checks of a region let only finite origins and finite positive extents through -/
theorem finite_of_validate (h : g.validate.isOk = true) (axis : Axis) :
    (g.rect.origin axis).isFinite = true ∧ (g.rect.extent axis).isFinite = true ∧
      Binary.zero.lt (g.rect.extent axis) = true := by
  have hpositive : ∀ {x : Binary64}, x.isFinite = true → x.le .zero = false → Binary.zero.lt x = true := fun hx hle =>
    (Binary.not_le_iff (Binary.isFinite_iff.1 hx).1 Binary.isNaN_zero).1 hle
  unfold validate at h
  split at h
  · cases h
  · rename_i hextent
    simp only [Bool.or_eq_true, Bool.not_eq_true', Bool.and_eq_false_iff, not_or, Bool.not_eq_false, Bool.not_eq_true]
      at hextent
    obtain ⟨⟨⟨⟨⟨hx, hy⟩, hw⟩, hh⟩, hw'⟩, hh'⟩ := hextent
    cases axis with
    | horizontal => exact ⟨hx, hw, hpositive hw hw'⟩
    | vertical => exact ⟨hy, hh, hpositive hh hh'⟩

/-- along each axis the box of a valid region begins at a finite number, and does not end before that -/
theorem ends_of_validate (h : g.validate.isOk = true) (axis : Axis) :
    (g.bounds.low axis).isFinite = true ∧ (g.bounds.low axis).le (g.bounds.high axis) = true ∧
      ((g.bounds.high axis).isFinite = true ∨ g.bounds.high axis = .infinity false) := by
  obtain ⟨horigin, hextent, hpositive⟩ := finite_of_validate h axis
  rw [bounds, Box.low_ofRect, Box.high_ofRect]
  have hle := (Binary.le_add_iff horigin).2 (.inl (Binary.le_of_lt hpositive))
  exact ⟨horigin, hle, Binary.isFinite_or_infinity_of_le horigin hle⟩

theorem proper_iff_of_validate (h : g.validate.isOk = true) :
    g.bounds.Proper ↔ ∀ axis, Binary.Advances (g.rect.origin axis) (g.rect.extent axis) := by
  have hadvances := fun axis =>
    Binary.advances_iff (finite_of_validate h axis).1 (finite_of_validate h axis).2.1 (finite_of_validate h axis).2.2
  constructor
  · intro hproper axis
    have hfar := hproper.far axis
    have hextended := hproper.extended axis
    rw [bounds, Box.high_ofRect] at hfar hextended
    rw [Box.low_ofRect] at hextended
    exact (hadvances axis).1 ⟨hfar, hextended⟩
  · intro hall
    refine ⟨fun axis => (ends_of_validate h axis).1, fun axis => ?_, fun axis => ?_⟩
    · rw [bounds, Box.high_ofRect]
      exact ((hadvances axis).2 (hall axis)).1
    · rw [bounds, Box.high_ofRect, Box.low_ofRect]
      exact ((hadvances axis).2 (hall axis)).2

end Region

namespace Quadtree

variable {V : Type}

/-- a tree over a region whose box is not proper consists of its root -/
theorem Sound.nodeCount_of_improper {t : Quadtree V} (h : t.Sound) (hg : ¬t.region.bounds.Proper) :
    t.root.nodeCount = 1 := by
  have hp := h.placed
  cases ht : t.root with
  | vacant => exact absurd ht h.rooted
  | node b l es nw ne sw se =>
    rw [ht] at hp
    obtain ⟨rfl, rfl⟩ := hp.bounds_level
    have hnone : ∀ q, (Subtree.node t.region.bounds 1 es nw ne sw se).child q = .vacant := fun q =>
      Classical.not_not.1 fun hq => hg (Region.proper_of_canDivide (hp.divided hq))
    have h1 : nw = .vacant := hnone .nw
    have h2 : ne = .vacant := hnone .ne
    have h3 : sw = .vacant := hnone .sw
    have h4 : se = .vacant := hnone .se
    subst h1 h2 h3 h4
    rfl

/-! ## Main result -/

/-- **What box a valid region has.** Where validation succeeds, so does making a tree, whose root gets a box that begins at a
finite corner and ends at one that is not before it and is finite or positive infinity. The box is proper, that is, both
corners are finite and the far one is beyond the near one on both axes, just if on both axes the exact sum of origin and
extent does not overflow and is more than half way to the next number above the origin (or half way, from an odd number). If
it is not proper, no calls ever make the tree divide its root. -/
theorem box_of_validate {g : Region} (h : g.validate.isOk = true) :
    ∃ b : Box, new g = .ok (⟨g, .leaf b 1⟩ : Quadtree V) ∧
      (∀ axis, (b.low axis).isFinite = true ∧ (b.low axis).le (b.high axis) = true ∧
        ((b.high axis).isFinite = true ∨ b.high axis = .infinity false)) ∧
      (b.Proper ↔ ∀ axis, Binary.Advances (g.rect.origin axis) (g.rect.extent axis)) ∧
      (¬b.Proper → ∀ ops : List (Op V), ((⟨g, .leaf b 1⟩ : Quadtree V).run ops).nodeCount = 1) := by
  refine ⟨g.bounds, new_of_validate h, Region.ends_of_validate h, Region.proper_iff_of_validate h, ?_⟩
  intro hg ops
  have ha : Agrees g ((empty g : Quadtree V).run ops) (reference g ops) := run_empty_agrees g ops
  exact ha.sound.nodeCount_of_improper (by rwa [ha.region])

/-- a region at the end of the format: its extent overflows on one axis and is lost on the other -/
def edge : Region :=
  { x := .ofInt (Nat.pow 10 308), y := .ofInt (Nat.pow 10 17), width := .ofInt (Nat.pow 10 308), height := .ofInt 1 }

/-- the box of a square is proper, and a tree over the other region never divides its root -/
theorem box_on_square :
    (square.validate.isOk = true ∧ ∃ b : Box, new square = .ok (⟨square, .leaf b 1⟩ : Quadtree Nat) ∧ b.Proper) ∧
      edge.validate.isOk = true ∧ ∃ b : Box, new edge = .ok (⟨edge, .leaf b 1⟩ : Quadtree Nat) ∧ ¬b.Proper ∧
        ((⟨edge, .leaf b 1⟩ : Quadtree Nat).run [.insert edge.rect 1]).nodeCount = 1 := by
  have hsquare : square.validate.isOk = true := by decide +kernel
  have hedge : edge.validate.isOk = true := by decide +kernel
  obtain ⟨b, hnew, -, hproper, -⟩ := box_of_validate (V := Nat) hsquare
  obtain ⟨b', hnew', -, hproper', hcount⟩ := box_of_validate (V := Nat) hedge
  have himproper : ¬b'.Proper := by
    rw [hproper', Axis.forall_iff]
    decide +kernel
  refine ⟨⟨hsquare, b, hnew, hproper.2 (Axis.forall_iff.2 ?_)⟩, hedge, b', hnew', himproper, hcount himproper _⟩
  decide +kernel

/-- **Validation lets through a region without an end on one axis and without an extent on the other.** -/
theorem improper_of_validate :
    edge.validate.isOk = true ∧ new edge = .ok (⟨edge, .leaf edge.bounds 1⟩ : Quadtree Nat) ∧
      edge.bounds.maxX.isFinite = false ∧ edge.bounds.minY.lt edge.bounds.maxY = false := by
  refine ⟨?_, new_of_validate ?_, ?_, ?_⟩
  all_goals decide +kernel

end Quadtree
end EventMatching
