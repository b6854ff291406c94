/-
Equal rectangles take one way down a quadtree.

Boxes are alike if their corners are. Containment, intersection and the descent step `Region.target` do not tell alike
boxes apart, and equal rectangles have alike boxes (`ofRect_alike`), also where they differ in the sign of a zero.
-/
import EventMatching.Proofs.Numeric.Alike
import EventMatching.Quadtree.Descent

namespace EventMatching

namespace Box

/-- the corners of the two boxes are alike -/
structure Alike (a b : Box) : Prop where
  minX : a.minX.Alike b.minX
  minY : a.minY.Alike b.minY
  maxX : a.maxX.Alike b.maxX
  maxY : a.maxY.Alike b.maxY

theorem ofRect_alike {r r' : Rect} (h : r == r') : (ofRect r).Alike (ofRect r') := by
  obtain ⟨hx, hy, hw, hh⟩ := Rect.beq_iff.1 h
  have ax := Binary.alike_of_beq hx
  have ay := Binary.alike_of_beq hy
  exact ⟨ax, ay, ax.add (Binary.alike_of_beq hw), ay.add (Binary.alike_of_beq hh)⟩

theorem contains_congr (b : Box) {a a' : Box} (h : a.Alike a') : b.contains a = b.contains a' := by
  simp only [contains, Binary.le_congr (.refl _) h.minX, Binary.le_congr (.refl _) h.minY,
    Binary.le_congr h.maxX (.refl _), Binary.le_congr h.maxY (.refl _)]

theorem intersects_congr {a a' : Box} (h : a.Alike a') (b : Box) : a.intersects b = a'.intersects b := by
  simp only [intersects, Binary.le_congr h.minX (.refl _), Binary.le_congr h.minY (.refl _),
    Binary.le_congr (.refl _) h.maxX, Binary.le_congr (.refl _) h.maxY]

end Box

namespace Region

theorem quadrantOf_congr (b : Box) {a a' : Box} (h : a.Alike a') : quadrantOf b a = quadrantOf b a' := by
  unfold quadrantOf
  simp only [fun q => Box.contains_congr (b.quadrant q) h]

theorem target_congr (g : Region) (l : Nat) (b : Box) {a a' : Box} (h : a.Alike a') : g.target l b a = g.target l b a' := by
  unfold target
  rw [quadrantOf_congr b h]

/-- a box goes down only into a quadrant that contains it -/
theorem contains_of_target {g : Region} {l : Nat} {b box : Box} {q : Quadrant} (h : g.target l b box = some q) :
    (b.quadrant q).contains box = true := by
  unfold target at h
  split at h
  · unfold quadrantOf at h
    split at h
    · rename_i p hp
      cases h
      have : q ∈ Quadrant.all.filter fun q => (b.quadrant q).contains box := by rw [hp]; exact List.mem_singleton_self q
      exact (List.mem_filter.1 this).2
    · cases h
  · cases h

end Region
end EventMatching
