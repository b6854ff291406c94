/-
Runs of insertions and removals on a quadtree, against an association list.

`run` carries out a list of calls on a tree, `reference` the same calls on a table of rectangles and values that refuses
what lies outside the region and knows nothing of nodes. The tree `Agrees` with the table in every state of a run
(`run_agrees`): its entries are placed, valid and covered by the region, and are those of the table in some order. From
that, every answer of the tree is the answer of the table (`answers_of_reference`).
-/
import EventMatching.Proofs.Quadtree.Placement

namespace EventMatching
namespace Quadtree

open scoped List

variable {V : Type}

/-! ## Runs -/

/-- a call that changes a tree -/
inductive Op (V : Type) where
  | insert (r : Rect) (v : V)
  | remove (r : Rect)
deriving DecidableEq

/-- the tree after a call; a call that fails leaves it as it was -/
def step (t : Quadtree V) : Op V → Quadtree V
  | .insert r v =>
    match t.insert r v with
    | .ok (_, t') => t'
    | .error _ => t
  | .remove r => (t.remove r).2

def run (t : Quadtree V) (ops : List (Op V)) : Quadtree V := ops.foldl step t

/-- what may be stored over a region: a valid rectangle whose box lies in it -/
def accepts (g : Region) (r : Rect) : Bool := r.isValid && g.bounds.contains (.ofRect r)

/-- the association list after a call -/
def refer (g : Region) (m : Table Rect V) : Op V → Table Rect V
  | .insert r v => if accepts g r then m.insert r v else m
  | .remove r => m.erase r

/-- the association list after the calls -/
def reference (g : Region) (ops : List (Op V)) : Table Rect V := ops.foldl (refer g) .empty

theorem new_eq_ok {g : Region} {t : Quadtree V} (h : new g = .ok t) : t = empty g := by
  unfold new at h
  split at h
  · exact (Except.ok.inj h).symm
  · cases h

theorem new_of_validate {g : Region} (h : g.validate.isOk = true) : new g = .ok (empty g : Quadtree V) := by
  unfold new
  cases hv : g.validate with
  | ok => rfl
  | error e => rw [hv] at h; cases h

/-! ## The invariant -/

/-- the invariant of a tree: its root is placed, and it holds only valid rectangles that its region covers -/
structure Sound (t : Quadtree V) : Prop where
  placed : t.root.Placed t.region t.region.bounds 1
  rooted : t.root ≠ .vacant
  valid : ∀ e ∈ t.root.toList, e.1.isValid = true
  covered : ∀ e ∈ t.root.toList, t.covers e.1 = true

theorem sound_empty (g : Region) : (empty g : Quadtree V).Sound :=
  ⟨.leaf _ _ _, by simp [empty, Subtree.leaf], (fun e he => nomatch he), (fun e he => nomatch he)⟩

theorem covers_congr (t : Quadtree V) {r r' : Rect} (h : r == r') : t.covers r = t.covers r' :=
  Box.contains_congr _ (Box.ofRect_alike h)

/-- a rectangle outside the region is equal to none in the tree -/
theorem Sound.lacks {t : Quadtree V} (h : t.Sound) {r : Rect} (hr : t.covers r = false) : Table.Lacks t.root.toList r := by
  intro e he
  cases hk : e.1 == r with
  | false => rfl
  | true =>
    have := h.covered e he
    rw [t.covers_congr hk, hr] at this
    cases this

theorem Sound.get?_eq {t : Quadtree V} (h : t.Sound) (r : Rect) : t.get? r = t.root.contents.get? r := by
  unfold get?
  split
  · exact h.placed.get?_eq r
  · rename_i hr
    exact (Table.get?_eq_none_iff.2 (h.lacks (by simpa using hr))).symm

/-! ## One call -/

theorem insert_eq (t : Quadtree V) (h : t.Sound) (r : Rect) (v : V) :
    t.insert r v =
      if !r.isValid then .error (.invalidRect r.display)
      else if !t.covers r then .error (.outOfRegion r t.region.rect)
      else .ok (t.root.contents.get? r, { t with root := (t.root.insert t.region r v).2 }) := by
  unfold insert
  split
  · rfl
  · split
    · rfl
    · simp only [(h.placed.insert_toList h.rooted r v).1]

theorem step_insert (t : Quadtree V) (h : t.Sound) (r : Rect) (v : V) :
    t.step (.insert r v) =
      if accepts t.region r then { t with root := (t.root.insert t.region r v).2 } else t := by
  simp only [step, insert_eq t h, accepts, covers]
  by_cases hv : r.isValid = true
  · by_cases hc : t.region.bounds.contains (.ofRect r) = true
    · simp [hv, hc]
    · simp [hv, hc]
  · simp [hv]

theorem Sound.insert {t : Quadtree V} (h : t.Sound) {r : Rect} (v : V) (hr : accepts t.region r = true) :
    Sound { t with root := (t.root.insert t.region r v).2 } := by
  obtain ⟨hv, hc⟩ := Bool.and_eq_true_iff.1 hr
  have hp := (h.placed.insert_toList h.rooted r v).2
  have hkey : ∀ e ∈ (t.root.insert t.region r v).2.toList, e.1 = r ∨ ∃ e' ∈ t.root.toList, e'.1 = e.1 := fun e he =>
    Table.key_of_mem_insertInto (hp.mem_iff.1 he)
  refine ⟨h.placed.insert r v, Subtree.insert_ne_vacant h.rooted _ _ _, ?_, ?_⟩
  · intro e he
    rcases hkey e he with hk | ⟨e', he', hk⟩
    · rw [hk]; exact hv
    · rw [← hk]; exact h.valid e' he'
  · intro e he
    rcases hkey e he with hk | ⟨e', he', hk⟩
    · rw [hk]; exact hc
    · rw [← hk]; exact h.covered e' he'

theorem remove_eq (t : Quadtree V) (h : t.Sound) (r : Rect) :
    (t.remove r).1 = t.root.contents.get? r ∧ (t.remove r).2.region = t.region ∧
      (t.remove r).2.root.toList = t.root.toList.filter fun e => !(e.1 == r) := by
  unfold remove
  split
  · obtain ⟨h1, h2⟩ := h.placed.remove_toList r
    exact ⟨h1, rfl, h2⟩
  · rename_i hr
    have hl := h.lacks (r := r) (by simpa using hr)
    exact ⟨(Table.get?_eq_none_iff.2 hl).symm, rfl, hl.filter_not.symm⟩

theorem Sound.remove {t : Quadtree V} (h : t.Sound) (r : Rect) : (t.remove r).2.Sound := by
  have hs : ∀ e ∈ (t.remove r).2.root.toList, e ∈ t.root.toList := by
    intro e he
    rw [(t.remove_eq h r).2.2] at he
    exact (List.mem_filter.1 he).1
  unfold Quadtree.remove at hs ⊢
  split
  · simp only [*, if_true] at hs
    exact ⟨h.placed.remove r, Subtree.remove_ne_vacant h.rooted _ _, fun e he => h.valid e (hs e he),
      fun e he => h.covered e (hs e he)⟩
  · exact h

/-! ## Agreement -/

/-- the tree over the region is sound and holds the entries of the table -/
structure Agrees (g : Region) (t : Quadtree V) (m : Table Rect V) : Prop where
  region : t.region = g
  sound : t.Sound
  entries : t.root.toList ~ m.entries

theorem Agrees.distinct {g : Region} {t : Quadtree V} {m : Table Rect V} (h : Agrees g t m) : m.Distinct :=
  h.sound.placed.contents_distinct.of_perm h.entries

theorem Agrees.get?_eq {g : Region} {t : Quadtree V} {m : Table Rect V} (h : Agrees g t m) (r : Rect) :
    t.root.contents.get? r = m.get? r :=
  Table.get?_of_perm h.sound.placed.contents_distinct h.entries r

theorem step_agrees {g : Region} {t : Quadtree V} {m : Table Rect V} (h : Agrees g t m) (o : Op V) :
    Agrees g (t.step o) (refer g m o) := by
  have hd := h.sound.placed.contents_distinct
  obtain rfl := h.region
  cases o with
  | insert r v =>
    rw [step_insert t h.sound, refer]
    split
    · rename_i hr
      refine ⟨rfl, h.sound.insert v hr, ?_⟩
      calc (t.root.insert t.region r v).2.toList
        _ ~ (t.root.contents.insert r v).entries := (h.sound.placed.insert_toList h.sound.rooted r v).2
        _ ~ (m.insert r v).entries := Table.insert_of_perm hd h.entries r v
    · exact h
  | remove r =>
    obtain ⟨-, hg, hl⟩ := t.remove_eq h.sound r
    refine ⟨hg, h.sound.remove r, ?_⟩
    calc (t.remove r).2.root.toList
      _ = (t.root.contents.erase r).entries := by rw [hl, Table.erase_entries hd]; rfl
      _ ~ (m.erase r).entries := Table.erase_of_perm hd h.entries r

theorem run_agrees {g : Region} {t : Quadtree V} {m : Table Rect V} (h : Agrees g t m) (ops : List (Op V)) :
    Agrees g (t.run ops) (ops.foldl (refer g) m) := by
  induction ops generalizing t m with
  | nil => exact h
  | cons o ops ih => exact ih (step_agrees h o)

theorem run_empty_agrees (g : Region) (ops : List (Op V)) : Agrees g ((empty g).run ops) (reference g ops) :=
  run_agrees ⟨rfl, sound_empty g, .refl _⟩ ops

/-! ## Main result -/

theorem count_eq (t : Subtree V) : t.count = t.toList.length := by
  induction t with
  | vacant => rfl
  | node b l es nw ne sw se ih1 ih2 ih3 ih4 =>
    simp only [Subtree.count, Subtree.toList, List.length_append, Table.size, ih1, ih2, ih3, ih4]
    omega

theorem isEmpty_iff (t : Subtree V) : t.isEmpty = true ↔ t.toList = [] := by
  induction t with
  | vacant => simp [Subtree.isEmpty, Subtree.toList]
  | node b l es nw ne sw se ih1 ih2 ih3 ih4 =>
    simp only [Subtree.isEmpty, Subtree.toList, Bool.and_eq_true, List.append_eq_nil_iff, Table.isEmpty, List.isEmpty_iff,
      ih1, ih2, ih3, ih4, and_assoc]

/-- **A quadtree is a map.** After any calls on a new tree, its answers are those of an association list with distinct
keys that took the same calls. An insertion is refused just for an invalid rectangle or one outside the region, in this
order, and otherwise returns the value under an equal rectangle; look-up and removal return the value under an equal
rectangle; the count is the number of keys. -/
theorem answers_of_reference {g : Region} {t₀ : Quadtree V} (h : new g = .ok t₀) (ops : List (Op V)) :
    let t := t₀.run ops
    let m := reference g ops
    (∀ r v, t.insert r v =
      if !r.isValid then .error (.invalidRect r.display)
      else if !g.bounds.contains (.ofRect r) then .error (.outOfRegion r g.rect)
      else .ok (m.get? r, t.step (.insert r v))) ∧
    (∀ r, t.get? r = m.get? r) ∧ (∀ r, (t.remove r).1 = m.get? r) ∧
    m.Distinct ∧ t.count = m.size ∧ (t.isEmpty = true ↔ t.count = 0) := by
  intro t m
  have ha : Agrees g t m := by
    rw [show t = (empty g).run ops by rw [← new_eq_ok h]]
    exact run_empty_agrees g ops
  have hcount : t.count = t.root.toList.length := count_eq t.root
  refine ⟨?_, ?_, ?_, ha.distinct, ?_, ?_⟩
  · intro r v
    rw [insert_eq t ha.sound, step_insert t ha.sound, ha.get?_eq, covers, ha.region, accepts]
    by_cases hv : r.isValid = true
    · by_cases hc : g.bounds.contains (.ofRect r) = true
      · simp [hv, hc]
      · simp [hc]
    · simp [hv]
  · intro r
    rw [ha.sound.get?_eq, ha.get?_eq]
  · intro r
    rw [(t.remove_eq ha.sound r).1, ha.get?_eq]
  · rw [hcount, ha.entries.length_eq]
    rfl
  · rw [hcount, List.length_eq_zero_iff]
    exact isEmpty_iff t.root

/-- the square from (0, 0) to (100, 100), over which a tree has up to 20 levels and drops empty nodes -/
def square : Region := ⟨.zero, .zero, .ofInt 100, .ofInt 100, 20, .zero, true⟩

/-- the point (25, 0), on the edge of the square, with a negative zero for its extent or a positive one -/
def edgePoint (negative : Bool) : Rect := ⟨.ofInt 25, .zero, .ofCode negative 0 (Nat.zero_le _), .zero⟩

/-- an upsert under the other zero is found, and counts once -/
theorem answers_on_square :
    new square = .ok (empty square : Quadtree Nat) ∧
      let t := (empty square : Quadtree Nat).run [.insert (edgePoint true) 1, .insert (edgePoint false) 2]
      t.get? (edgePoint true) = some 2 ∧ t.count = 1 ∧ t.isEmpty = false := by
  have h : new square = .ok (empty square : Quadtree Nat) := new_of_validate (by decide +kernel)
  obtain ⟨-, hget, -, -, hcount, hempty⟩ :=
    answers_of_reference h [.insert (edgePoint true) 1, .insert (edgePoint false) 2]
  have hone := hcount.trans (show _ = 1 by decide +kernel)
  refine ⟨h, (hget _).trans (by decide +kernel), hone, ?_⟩
  rw [← Bool.not_eq_true, hempty, hone]
  decide

end Quadtree
end EventMatching
