/-
Quadrants and the midline rule.

A number between the ends of an interval lies on one side of any cut inside it, so the quadrants of a node that may be
divided hold the points of the node and no others. A box within such a node lies in a quadrant just if it keeps to the
quadrant's side of the middle on both axes (`contains_quadrant_iff`). The descent step wants one quadrant and no second one,
hence a box that on both axes keeps to one side and not to the other as well (`target_eq_some_iff`): a box that crosses a
middle keeps to neither side, and one that is all on it to both (`Binary.sides_alike_iff`).
-/
import EventMatching.Proofs.Geometry.Axis
import EventMatching.Proofs.Numeric.Order
import EventMatching.Proofs.Quadtree.Runs

namespace EventMatching

/-! ## Quadrants of a node that may be divided -/

/-- whether a box keeps to one side of the middle of another along an axis -/
def Box.keepsTo (b box : Box) (axis : Axis) (beyond : Bool) : Bool :=
  if beyond then (b.middle axis).le (box.low axis) else (box.high axis).le (b.middle axis)

namespace Region

variable {g : Region} {l : Nat} {b box : Box}

/-- the middle of a node that may be divided is strictly between its ends -/
theorem middle_of_canDivide (h : g.canDivide l b = true) (axis : Axis) :
    (b.low axis).lt (b.middle axis) = true ∧ (b.middle axis).lt (b.high axis) = true := by
  simp only [canDivide, Bool.and_eq_true] at h
  obtain ⟨⟨-, ⟨⟨⟨hleft, hright⟩, htop⟩, hbottom⟩⟩, -⟩ := h
  cases axis with
  | horizontal => exact ⟨hleft, hright⟩
  | vertical => exact ⟨htop, hbottom⟩

theorem contains_quadrant_iff (h : b.contains box = true) {q : Quadrant} :
    (b.quadrant q).contains box = true ↔ ∀ axis, b.keepsTo box axis (q.beyond axis) = true := by
  rw [Box.contains_iff] at h ⊢
  refine forall_congr' fun axis => ?_
  obtain ⟨hlow, hhigh⟩ := h axis
  rw [Box.low_quadrant, Box.high_quadrant, Box.keepsTo]
  split
  · exact and_iff_left hhigh
  · exact and_iff_right hlow

theorem quadrantOf_eq_some_iff {q : Quadrant} :
    quadrantOf b box = some q ↔ ∀ p, (b.quadrant p).contains box = true ↔ p = q := by
  have hfilter : quadrantOf b box = some q ↔ (Quadrant.all.filter fun p => (b.quadrant p).contains box) = [q] := by
    unfold quadrantOf
    split
    · rename_i p hp
      rw [hp]
      simp
    · rename_i hp
      exact iff_of_false (by simp) (hp q)
  rw [hfilter]
  constructor
  · intro h p
    have hmem : p ∈ Quadrant.all.filter (fun p => (b.quadrant p).contains box) ↔ p ∈ [q] := by rw [h]
    rwa [List.mem_filter, and_iff_right p.mem_all, List.mem_singleton] at hmem
  · intro h
    have hside : (fun p => (b.quadrant p).contains box) = fun p => decide (p = q) := by
      funext p
      rw [Bool.eq_iff_iff, h p, decide_eq_true_iff]
    rw [hside]
    cases q <;> rfl

/-- **The midline rule**: a box goes to the quadrant on whose sides, and only on whose sides, it keeps. -/
theorem target_eq_some_iff (h : g.canDivide l b = true) (hin : b.contains box = true) {q : Quadrant} :
    g.target l b box = some q ↔
      ∀ axis, b.keepsTo box axis (q.beyond axis) = true ∧ b.keepsTo box axis (!q.beyond axis) = false := by
  rw [target, if_pos h, quadrantOf_eq_some_iff]
  simp only [contains_quadrant_iff hin]
  constructor
  · intro hq axis
    refine ⟨(hq q).2 rfl axis, ?_⟩
    -- otherwise the quadrant across the middle would do as well
    rw [← Bool.not_eq_true]
    intro hother
    let side (a : Axis) : Bool := if a = axis then !q.beyond axis else q.beyond a
    have hp : Quadrant.ofSides side = q := by
      refine (hq _).1 fun a => ?_
      rw [Quadrant.beyond_ofSides]
      by_cases ha : a = axis
      · subst ha
        simpa [side] using hother
      · simpa [side, ha] using (hq q).2 rfl a
    have hsame : side axis = q.beyond axis := by rw [← hp, Quadrant.beyond_ofSides]
    simp [side] at hsame
  · intro hq p
    constructor
    · intro hp
      refine Quadrant.ext fun axis => ?_
      have hnot := (hq axis).2
      by_cases hs : p.beyond axis = q.beyond axis
      · exact hs
      · rw [← Bool.eq_not.2 hs, hp axis] at hnot
        cases hnot
    · rintro rfl axis
      exact (hq axis).1

theorem exists_target_iff (h : g.canDivide l b = true) (hin : b.contains box = true) :
    (∃ q, g.target l b box = some q) ↔ ∀ axis, b.keepsTo box axis false ≠ b.keepsTo box axis true := by
  constructor
  · rintro ⟨q, hq⟩ axis
    obtain ⟨hside, hother⟩ := (target_eq_some_iff h hin).1 hq axis
    cases hs : q.beyond axis <;> rw [hs] at hside hother <;> simp_all
  · intro hone
    refine ⟨.ofSides fun axis => b.keepsTo box axis true, (target_eq_some_iff h hin).2 fun axis => ?_⟩
    have := hone axis
    rw [Quadrant.beyond_ofSides]
    cases hs : b.keepsTo box axis true <;> simp_all

/-! ## Main result -/

/-- **Quadrants tile a node, and the middle decides between them.** For a node that may be divided: a point lies in it just
if it lies in one of its quadrants. A box in it whose ends are in order goes down just if on each axis one and only one of
two things holds, that it ends at the middle or before it, or that it begins there or beyond; then it goes to the quadrant on
those sides. It stays just if on some axis it strictly crosses the middle, or is a point that lies on it. -/
theorem quadrants_tile (h : g.canDivide l b = true) :
    (∀ x y, b.containsPoint x y = true ↔ ∃ q, (b.quadrant q).containsPoint x y = true) ∧
    ∀ box : Box, box.minX.le box.maxX = true → box.minY.le box.maxY = true → b.contains box = true →
      ((∃ q, g.target l b box = some q) ↔
        ∀ axis, (box.high axis).le (b.middle axis) ≠ (b.middle axis).le (box.low axis)) ∧
      (∀ q, g.target l b box = some q ↔ ∀ axis,
        (box.high axis).le (b.middle axis) = !q.beyond axis ∧ (b.middle axis).le (box.low axis) = q.beyond axis) ∧
      (g.target l b box = none ↔ ∃ axis,
        (box.low axis).lt (b.middle axis) = true ∧ (b.middle axis).lt (box.high axis) = true ∨
          (box.low axis == b.middle axis) = true ∧ (box.high axis == b.middle axis) = true) := by
  have hcut := middle_of_canDivide h
  refine ⟨fun x y => ?_, fun box hx hy hin => ⟨exists_target_iff h hin, fun q => ?_, ?_⟩⟩
  · have hsides := fun axis =>
      Binary.between_iff (x := Axis.pick x y axis) (Binary.le_of_lt (hcut axis).1) (Binary.le_of_lt (hcut axis).2)
    simp only [Box.containsPoint_iff, Box.low_quadrant, Box.high_quadrant]
    constructor
    · intro hp
      -- on each axis the side on which the point is, that beyond the middle if it is on both
      refine ⟨.ofSides fun axis => (b.middle axis).le (Axis.pick x y axis), fun axis => ?_⟩
      have hin := (hsides axis).1 (hp axis)
      rw [Quadrant.beyond_ofSides]
      split
      · rename_i hbeyond
        exact ⟨hbeyond, (hp axis).2⟩
      · rename_i hbeyond
        exact hin.resolve_right fun hin => hbeyond hin.1
    · rintro ⟨q, hq⟩ axis
      have hq := hq axis
      refine (hsides axis).2 ?_
      split at hq
      · exact .inr hq
      · exact .inl hq
  · rw [target_eq_some_iff h hin]
    refine forall_congr' fun axis => ?_
    cases q.beyond axis with
    | false => rfl
    | true => exact and_comm
  · have hordered : ∀ axis, (box.low axis).le (box.high axis) = true := Axis.forall_iff.2 ⟨hx, hy⟩
    have hstays : g.target l b box = none ↔ ¬∃ q, g.target l b box = some q := by
      rw [← Option.isSome_iff_exists, Bool.not_eq_true, Option.isSome_eq_false_iff, Option.isNone_iff_eq_none]
    rw [hstays, exists_target_iff h hin, Classical.not_forall]
    refine exists_congr fun axis => ?_
    rw [Classical.not_not]
    exact Binary.sides_alike_iff (hordered axis) (Binary.lt_iff.1 (hcut axis).1).2.1

/-- the box from (n, n) to (m, m) -/
def span (n m : Int) : Box := ⟨.ofInt n, .ofInt n, .ofInt m, .ofInt m⟩

/-- a box that ends at both middles goes down, and the point in which they meet stays -/
theorem quadrants_on_square :
    Quadtree.square.canDivide 1 Quadtree.square.bounds = true ∧
      Quadtree.square.target 1 Quadtree.square.bounds (span 40 50) = some .nw ∧
      Quadtree.square.target 1 Quadtree.square.bounds (span 50 50) = none := by
  have h : Quadtree.square.canDivide 1 Quadtree.square.bounds = true := by decide +kernel
  obtain ⟨-, hbox⟩ := quadrants_tile h
  refine ⟨h, ?_, ?_⟩
  · obtain ⟨-, hgoes, -⟩ := hbox (span 40 50) (by decide +kernel) (by decide +kernel) (by decide +kernel)
    exact (hgoes .nw).2 (Axis.forall_iff.2 (by decide +kernel))
  · obtain ⟨-, -, hstays⟩ := hbox (span 50 50) (by decide +kernel) (by decide +kernel) (by decide +kernel)
    exact hstays.2 ⟨.horizontal, by decide +kernel⟩

end Region
end EventMatching
