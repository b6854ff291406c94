/-
Queries with a degenerate extent.

Before it goes into a tree, collection asks whether the box of the query has an extent of at least zero, and takes the
differences of the box's corners for that. So a query gets past just if it `Spans` both axes (`collect_of_not_spans`).
An extent that is negative or not finite mostly keeps a query out, on a tree and for every event that asks it of an
index; but infinity, and a negative extent that rounding loses, get past and show what their box meets
(`collect_degenerate`, `shown_degenerate`).
-/
import EventMatching.Proofs.Numeric.Extent
import EventMatching.Proofs.Index.Visit

namespace EventMatching

/-- both axes of the rectangle span -/
structure Rect.Spans (r : Rect) : Prop where
  horizontal : Binary.Spans r.x r.w
  vertical : Binary.Spans r.y r.h

/-- collection asks for this of its query -/
theorem Rect.spans_iff {r : Rect} :
    (Binary.zero.le (Box.ofRect r).width && Binary.zero.le (Box.ofRect r).height) = true ↔ r.Spans := by
  rw [Bool.and_eq_true]
  constructor
  · rintro ⟨hw, hh⟩
    exact ⟨Binary.zero_le_extent_iff.1 hw, Binary.zero_le_extent_iff.1 hh⟩
  · rintro ⟨hw, hh⟩
    exact ⟨Binary.zero_le_extent_iff.2 hw, Binary.zero_le_extent_iff.2 hh⟩

instance (r : Rect) : Decidable r.Spans := decidable_of_iff _ Rect.spans_iff

namespace Quadtree

open scoped List

variable {V : Type}

/-- a query that does not span both axes runs its callback on nothing, and cannot fail -/
theorem collect_of_not_spans {m : Type → Type} [Monad m] (t : Quadtree V) {query : Rect} (h : ¬query.Spans)
    (f : Rect → V → m Unit) : t.collect query f = pure () := by
  unfold collect
  exact if_neg fun hq => h (Rect.spans_iff.1 hq)

/-- an event that asks such a query runs no evaluator -/
theorem visit_of_not_spans {σ : Type} (t : Quadtree V) {a : Area} {event : Event} {query : Rect} (h : ¬query.Spans)
    (hq : a.query event = .ok query) (run : V → EStateM Error σ Unit) : (Index.area a t).visit event run = pure () := by
  simp only [Index.visit, hq]
  exact t.collect_of_not_spans h _

/-! ## Main result -/

/-- **What a degenerate extent shows.** After any calls on a new tree: a query that does not span both axes runs its
callback on nothing, in any monad, and an event that asks it of an index runs nothing either; a query that spans both
shows just the stored entries that its box meets. With an extent that is negative or not finite, a query spans only if
that extent is infinity, or is lost when it is added to the origin. -/
theorem collect_degenerate {g : Region} {t₀ : Quadtree V} (h : new g = .ok t₀) (ops : List (Op V)) (query : Rect) :
    let t := t₀.run ops
    (¬query.Spans →
      (∀ {m : Type → Type} [Monad m] (f : Rect → V → m Unit), t.collect query f = pure ()) ∧
      ∀ {σ : Type} (a : Area) (event : Event) (run : V → EStateM Error σ Unit), a.query event = .ok query →
        (Index.area a t).visit event run = pure ()) ∧
    (query.Spans → t.shown query ~ (reference g ops).entries.filter fun e => (Box.ofRect e.1).Meets (.ofRect query)) ∧
    (Binary.Degenerate query.w →
      (query.Spans ↔ Binary.Spans query.y query.h ∧ query.x.isFinite = true ∧
        (query.w = .infinity false ∨ (query.x + query.w == query.x) = true))) ∧
    (Binary.Degenerate query.h →
      (query.Spans ↔ Binary.Spans query.x query.w ∧ query.y.isFinite = true ∧
        (query.h = .infinity false ∨ (query.y + query.h == query.y) = true))) := by
  intro t
  refine ⟨?_, ?_, ?_, ?_⟩
  · intro hn
    exact ⟨fun f => t.collect_of_not_spans hn f, fun a event run hq => t.visit_of_not_spans hn hq run⟩
  · intro hs
    obtain ⟨hw, hh⟩ := Bool.and_eq_true_iff.1 (Rect.spans_iff.2 hs)
    obtain ⟨-, hshown, -⟩ := shown_eq_scan h ops query
    exact hshown hw hh
  · intro hd
    rw [← hd.spans_iff]
    exact ⟨fun hs => ⟨hs.vertical, hs.horizontal⟩, fun hs => ⟨hs.2, hs.1⟩⟩
  · intro hd
    rw [← hd.spans_iff]
    exact ⟨fun hs => ⟨hs.horizontal, hs.vertical⟩, fun hs => ⟨hs.1, hs.2⟩⟩

/-- a width of minus infinity shows nothing, and one of plus infinity what is above its lower edge -/
theorem collect_beyond_square :
    new square = .ok (empty square : Quadtree Nat) ∧
      ((empty square).run diagonalOps).collect ⟨.zero, .zero, .infinity true, .ofInt 60⟩
        (fun _ n => (modify (· + n) : StateM Nat Unit)) = pure () ∧
      ((empty square).run diagonalOps).shown ⟨.zero, .zero, .infinity false, .ofInt 60⟩ ~ [(diagonal 50, 1)] := by
  have h : new square = .ok (empty square : Quadtree Nat) := new_of_validate (by decide +kernel)
  refine ⟨h, ?_, ?_⟩
  · obtain ⟨hnone, -⟩ := collect_degenerate h diagonalOps ⟨.zero, .zero, .infinity true, .ofInt 60⟩
    exact (hnone (by decide +kernel)).1 _
  · obtain ⟨-, hmeet, -⟩ := collect_degenerate h diagonalOps ⟨.zero, .zero, .infinity false, .ofInt 60⟩
    exact (hmeet (by decide +kernel)).trans (.of_eq (by decide +kernel))

/-- a square so broad that a number near its middle absorbs an extent of one -/
def broad : Region := ⟨.zero, .zero, .ofInt (Nat.pow 10 18), .ofInt (Nat.pow 10 18), 20, .zero, false⟩

/-- a square near the middle of `broad` -/
def middle : Rect :=
  ⟨.ofInt (Nat.pow 10 17), .ofInt (Nat.pow 10 17), .ofInt (Nat.pow 10 16), .ofInt (Nat.pow 10 16)⟩

/-- degenerate extents that show an entry: plus infinity, and minus one where it is lost -/
theorem shown_degenerate :
    (new square = .ok (empty square : Quadtree Nat) ∧ (.infinity false : Binary64).isFinite = false ∧
      ((empty square).run diagonalOps).shown ⟨.zero, .zero, .infinity false, .ofInt 60⟩ = [(diagonal 50, 1)]) ∧
    (new broad = .ok (empty broad : Quadtree Nat) ∧ (.ofInt (-1) : Binary64).lt .zero = true ∧
      ((empty broad).run [.insert middle 1]).shown { middle with w := .ofInt (-1) } = [(middle, 1)]) := by
  refine ⟨⟨new_of_validate ?_, ?_, ?_⟩, ⟨new_of_validate ?_, ?_, ?_⟩⟩
  all_goals decide +kernel

end Quadtree
end EventMatching
