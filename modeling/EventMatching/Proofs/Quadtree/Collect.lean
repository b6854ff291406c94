/-
Range collection against the linear scan.

Every entry of a placed subtree lies in the bounds of each node above it (`Placed.bounded`), so a subtree whose bounds
miss a query holds nothing that meets it (`intersects_of_contains`). Hence collection runs its callback over the list of
all entries less those that miss the query, in one order, for callbacks in any monad (`Placed.collect_eq`,
`Sound.collect_eq`); and what a callback that never fails is shown is what a scan of the association list finds
(`shown_eq_scan`).
-/
import EventMatching.Proofs.Numeric.Order
import EventMatching.Proofs.Quadtree.Runs

namespace EventMatching

namespace Box

/-- the boxes meet as pairs of closed intervals: on each axis, neither begins after the other has ended -/
structure Meets (a b : Box) : Prop where
  left : a.minX.le b.maxX = true
  right : b.minX.le a.maxX = true
  top : a.minY.le b.maxY = true
  bottom : b.minY.le a.maxY = true

instance (a b : Box) : Decidable (a.Meets b) :=
  decidable_of_iff (a.minX.le b.maxX = true ∧ b.minX.le a.maxX = true ∧ a.minY.le b.maxY = true ∧ b.minY.le a.maxY = true)
    ⟨fun ⟨h1, h2, h3, h4⟩ => ⟨h1, h2, h3, h4⟩, fun ⟨h1, h2, h3, h4⟩ => ⟨h1, h2, h3, h4⟩⟩

theorem intersects_iff {a b : Box} : a.intersects b = true ↔ a.Meets b := by
  simp only [intersects, Bool.and_eq_true]
  constructor
  · intro h
    obtain ⟨⟨⟨h1, h2⟩, h3⟩, h4⟩ := h
    exact ⟨h1, h2, h3, h4⟩
  · intro h
    obtain ⟨h1, h2, h3, h4⟩ := h
    exact ⟨⟨⟨h1, h2⟩, h3⟩, h4⟩

/-- a box that contains another meets whatever the other meets -/
theorem intersects_of_contains {b a q : Box} (h : b.contains a = true) (hq : a.intersects q = true) :
    b.intersects q = true := by
  simp only [contains, intersects, Bool.and_eq_true] at *
  obtain ⟨⟨⟨h1, h2⟩, h3⟩, h4⟩ := h
  obtain ⟨⟨⟨q1, q2⟩, q3⟩, q4⟩ := hq
  exact ⟨⟨⟨Binary.le_trans h1 q1, Binary.le_trans q2 h2⟩, Binary.le_trans h3 q3⟩, Binary.le_trans q4 h4⟩

end Box

namespace Subtree

variable {V : Type} {g : Region} {b : Box} {l : Nat}

/-- all nodes of a subtree, each with what is below it -/
def subtrees : Subtree V → List (Subtree V)
  | vacant => []
  | node b l es nw ne sw se => node b l es nw ne sw se :: (nw.subtrees ++ (ne.subtrees ++ (sw.subtrees ++ se.subtrees)))

/-- the bounds contain the boxes of all entries -/
def Within (b : Box) (t : Subtree V) : Prop := ∀ e ∈ t.toList, b.contains (.ofRect e.1) = true

section Node

variable {es : Table Rect V} {nw ne sw se : Subtree V}

/-- the entries of each quadrant are within the bounds of the quadrant -/
theorem Placed.within_child (h : Placed g b l (node b l es nw ne sw se)) (q : Quadrant) :
    ((node b l es nw ne sw se).child q).Within (b.quadrant q) :=
  fun e he => Region.contains_of_target (h.goes q e he)

end Node

/-- **Entries lie within every node above them.** -/
theorem Placed.bounded {t : Subtree V} (h : Placed g b l t) (hw : t.Within b) {b' : Box} {l' : Nat}
    {es : Table Rect V} {nw ne sw se : Subtree V} (hs : node b' l' es nw ne sw se ∈ t.subtrees) :
    (node b' l' es nw ne sw se).Within b' := by
  induction h with
  | absent => cases hs
  | @present b l es₀ nw₀ ne₀ sw₀ se₀ distinct stays divided goes deeper ih =>
    have hc := (Placed.present distinct stays divided goes deeper).within_child
    simp only [subtrees, List.mem_cons, List.mem_append] at hs
    rcases hs with hs | hs | hs | hs | hs
    · cases hs; exact hw
    · exact ih .nw (hc .nw) hs
    · exact ih .ne (hc .ne) hs
    · exact ih .sw (hc .sw) hs
    · exact ih .se (hc .se) hs

/-! ## Collection as a loop over a list -/

theorem forM_filter {m : Type → Type} [Monad m] [LawfulMonad m] {α : Type} (p : α → Bool) (f : α → m Unit) (xs : List α) :
    (xs.filter p).forM f = xs.forM fun x => if p x then f x else pure () := by
  induction xs with
  | nil => rfl
  | cons x xs ih =>
    rw [List.filter_cons]
    split <;> simp_all

/-- collection is a loop over the entries that meet the query -/
theorem Placed.collect_eq {m : Type → Type} [Monad m] [LawfulMonad m] {t : Subtree V} (h : Placed g b l t)
    (hw : t.Within b) (query : Box) (f : Rect → V → m Unit) :
    t.collect query f = (t.toList.filter fun e => (Box.ofRect e.1).intersects query).forM fun e => f e.1 e.2 := by
  induction h with
  | absent => rfl
  | @present b l es nw ne sw se distinct stays divided goes deeper ih =>
    have hc := (Placed.present distinct stays divided goes deeper).within_child
    rw [collect]
    split
    · have hnw := ih .nw (hc .nw)
      have hne := ih .ne (hc .ne)
      have hsw := ih .sw (hc .sw)
      have hse := ih .se (hc .se)
      simp only [child] at hnw hne hsw hse
      rw [hnw, hne, hsw, hse]
      simp only [forM_filter, toList, List.forM_eq_forM, List.forM_append]
    · rename_i hb
      have : (node b l es nw ne sw se).toList.filter (fun e => (Box.ofRect e.1).intersects query) = [] := by
        rw [List.filter_eq_nil_iff]
        exact fun e he hq => hb (Box.intersects_of_contains (hw e he) hq)
      rw [this]
      rfl

end Subtree

namespace Quadtree

open scoped List

variable {V : Type}

/-- the entries that a query is about: none if the box of the query has a negative extent or one that is no number, or
else those whose boxes it meets -/
def scan (query : Rect) (entries : List (Rect × V)) : List (Rect × V) :=
  let box := Box.ofRect query
  if Binary.zero.le box.width && Binary.zero.le box.height then
    entries.filter fun e => (Box.ofRect e.1).Meets box
  else []

theorem Sound.within {t : Quadtree V} (h : t.Sound) : t.root.Within t.region.bounds := h.covered

/-- collection is a loop over a scan of the tree's entries -/
theorem Sound.collect_eq {m : Type → Type} [Monad m] [LawfulMonad m] {t : Quadtree V} (h : t.Sound) (query : Rect)
    (f : Rect → V → m Unit) : t.collect query f = (scan query t.root.toList).forM fun e => f e.1 e.2 := by
  unfold collect scan
  simp only [← Box.intersects_iff, Bool.decide_eq_true]
  split
  · exact h.placed.collect_eq h.within _ f
  · rfl

/-- the entries that a callback is shown which only takes note of them -/
def shown (t : Quadtree V) (query : Rect) : List (Rect × V) :=
  ((t.collect query fun r v => (modify (· ++ [(r, v)]) : StateM (List (Rect × V)) Unit)).run []).2

theorem forM_note {α : Type} (xs acc : List α) :
    ((xs.forM fun e => (modify (· ++ [e]) : StateM (List α) Unit)).run acc) = ((), acc ++ xs) := by
  induction xs generalizing acc with
  | nil =>
    show ((), acc) = ((), acc ++ [])
    rw [List.append_nil]
  | cons x xs ih =>
    show (xs.forM fun e => (modify (· ++ [e]) : StateM (List α) Unit)).run (acc ++ [x]) = _
    rw [ih, List.append_assoc]
    rfl

theorem Sound.shown_eq {t : Quadtree V} (h : t.Sound) (query : Rect) : t.shown query = scan query t.root.toList := by
  unfold shown
  rw [h.collect_eq, forM_note]
  rfl

/-! ## Main result -/

/-- **Range collection is the linear scan.** After any calls on a new tree, and for any query at all: a callback that
never fails is shown nothing if the extent of the query's box is not at least zero on both axes; otherwise exactly the
stored entries whose boxes meet the query's, none of them twice. A callback that does anything else, in any monad, is run
over just that list. A subtree whose bounds miss the query, which is the reason to skip it, holds no entry that meets it. -/
theorem shown_eq_scan {g : Region} {t₀ : Quadtree V} (h : new g = .ok t₀) (ops : List (Op V)) (query : Rect) :
    let t := t₀.run ops
    let box := Box.ofRect query
    (¬(Binary.zero.le box.width = true ∧ Binary.zero.le box.height = true) → t.shown query = []) ∧
    (Binary.zero.le box.width = true → Binary.zero.le box.height = true →
      t.shown query ~ (reference g ops).entries.filter fun e => (Box.ofRect e.1).Meets box) ∧
    ((t.shown query).Pairwise fun e e' => (e.1 == e'.1) = false) ∧
    (∀ {m : Type → Type} [Monad m] [LawfulMonad m] (f : Rect → V → m Unit),
      t.collect query f = (t.shown query).forM fun e => f e.1 e.2) ∧
    (∀ b l es nw ne sw se, Subtree.node b l es nw ne sw se ∈ t.root.subtrees → b.intersects box = false →
      ∀ e ∈ (Subtree.node b l es nw ne sw se).toList, ¬(Box.ofRect e.1).Meets box) := by
  intro t box
  have ha : Agrees g t (reference g ops) := by
    rw [show t = (empty g).run ops by rw [← new_eq_ok h]]
    exact run_empty_agrees g ops
  have hs := ha.sound.shown_eq query
  refine ⟨?_, ?_, ?_, ?_, ?_⟩
  · intro hn
    rw [hs, scan, if_neg]
    rwa [Bool.and_eq_true]
  · intro hw hh
    rw [hs, scan, if_pos (Bool.and_eq_true_iff.2 ⟨hw, hh⟩)]
    exact ha.entries.filter _
  · rw [hs, scan]
    split
    · exact List.Pairwise.filter _ ha.sound.placed.contents_distinct
    · exact .nil
  · intro m _ _ f
    rw [hs]
    exact ha.sound.collect_eq query f
  · intro b l es nw ne sw se hn hb e he hm
    have := Box.intersects_of_contains (ha.sound.placed.bounded ha.sound.within hn e he) (Box.intersects_iff.2 hm)
    rw [hb] at this
    cases this

/-- the point (n, n) -/
def diagonal (n : Int) : Rect := ⟨.ofInt n, .ofInt n, .zero, .zero⟩

def diagonalOps : List (Op Nat) := [.insert (diagonal 50) 1, .insert (diagonal 75) 2, .insert (diagonal 80) 3]

/-- a query that touches two of three points with its corners only, and one whose extent is minus infinity -/
theorem shown_on_square :
    new square = .ok (empty square : Quadtree Nat) ∧
      ((empty square).run diagonalOps).shown ⟨.ofInt 50, .ofInt 50, .ofInt 25, .ofInt 25⟩ ~
        [(diagonal 50, 1), (diagonal 75, 2)] ∧
      ((empty square).run diagonalOps).shown ⟨.ofInt 50, .ofInt 50, .infinity true, .ofInt 25⟩ = [] := by
  have h : new square = .ok (empty square : Quadtree Nat) := new_of_validate (by decide +kernel)
  refine ⟨h, ?_, ?_⟩
  · obtain ⟨-, hs, -⟩ := shown_eq_scan h diagonalOps ⟨.ofInt 50, .ofInt 50, .ofInt 25, .ofInt 25⟩
    exact (hs (by decide +kernel) (by decide +kernel)).trans (.of_eq (by decide +kernel))
  · exact (shown_eq_scan h diagonalOps ⟨.ofInt 50, .ofInt 50, .infinity true, .ofInt 25⟩).1 (by decide +kernel)

end Quadtree
end EventMatching
