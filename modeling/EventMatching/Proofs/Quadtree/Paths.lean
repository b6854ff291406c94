/-
Nodes of a quadtree by the paths to them.

A path names a quadrant at each step down from the root, and `nodeAt` is the node that it leads to, if there is one. On a
placed subtree every path is as `Placed` says of its last step (`Placed.follow`), so the whole representation can be told
by paths: `Represented` says where nodes are, what bounds and levels they have, and which entries stand at them. Levels
count the steps of a path and do not exceed the greatest height, so an insertion ends before it has gone through more
nodes than that and no level outgrows a word (`Placed.insertIn_eq`, by `insertIn`, which fails in both cases), and the
depth of a tree is the greatest level of a node (`Placed.depth_greatest`). Every tree that calls lead to is represented so
(`represented_of_run`).
-/
import EventMatching.Proofs.Quadtree.Collect

namespace EventMatching

namespace Subtree

variable {V : Type} {g : Region} {b : Box} {l : Nat}

/-- what a node is apart from its children -/
structure Node (V : Type) where
  bounds : Box
  level : Nat
  entries : Table Rect V

/-- the node at a place, if the place is not vacant -/
def top : Subtree V → Option (Node V)
  | vacant => none
  | node b l es _ _ _ _ => some ⟨b, l, es⟩

/-- the place that a path leads to -/
def follow : Subtree V → List Quadrant → Subtree V
  | t, [] => t
  | t, q :: path => (t.child q).follow path

/-- the node that a path leads to, if there is one -/
def nodeAt (t : Subtree V) (path : List Quadrant) : Option (Node V) := (t.follow path).top

/-! ## Paths -/

theorem follow_append (t : Subtree V) (path rest : List Quadrant) :
    t.follow (path ++ rest) = (t.follow path).follow rest := by
  induction path generalizing t with
  | nil => rfl
  | cons q path ih => exact ih (t.child q)

theorem follow_vacant (path : List Quadrant) : (vacant : Subtree V).follow path = vacant := by
  induction path with
  | nil => rfl
  | cons q path ih => exact ih

theorem top_eq_some {t : Subtree V} {n : Node V} (h : t.top = some n) :
    ∃ nw ne sw se, t = node n.bounds n.level n.entries nw ne sw se := by
  cases t with
  | vacant => cases h
  | node b l es nw ne sw se =>
    obtain rfl := Option.some.inj h
    exact ⟨nw, ne, sw, se, rfl⟩

theorem top_isSome {t : Subtree V} (h : t ≠ vacant) : ∃ n, t.top = some n := by
  cases t with
  | vacant => exact absurd rfl h
  | node b l es nw ne sw se => exact ⟨_, rfl⟩

/-- the entries at the end of a path are among those of the whole -/
theorem mem_toList_of_follow {t : Subtree V} {path : List Quadrant} {e : Rect × V} (h : e ∈ (t.follow path).toList) :
    e ∈ t.toList := by
  induction path generalizing t with
  | nil => exact h
  | cons q path ih => exact mem_toList.2 (.inr ⟨q, ih h⟩)

theorem mem_toList_of_top {t : Subtree V} {n : Node V} (h : t.top = some n) {e : Rect × V} (he : e ∈ n.entries.entries) :
    e ∈ t.toList := by
  obtain ⟨nw, ne, sw, se, rfl⟩ := top_eq_some h
  exact mem_toList.2 (.inl he)

/-- the end of a path is placed, with a level that counts its steps, and holds only entries within its bounds -/
theorem Placed.follow {t : Subtree V} (h : Placed g b l t) (hw : t.Within b) {path : List Quadrant} {n : Node V}
    (hn : t.nodeAt path = some n) :
    Placed g n.bounds n.level (t.follow path) ∧ (t.follow path).Within n.bounds ∧ n.level = l + path.length := by
  induction path generalizing t b l with
  | nil =>
    obtain ⟨nw, ne, sw, se, rfl⟩ : ∃ nw ne sw se, t = node n.bounds n.level n.entries nw ne sw se := top_eq_some hn
    obtain ⟨b', l', es⟩ := n
    obtain ⟨rfl, rfl⟩ := h.bounds_level
    exact ⟨h, hw, rfl⟩
  | cons q path ih =>
    cases t with
    | vacant =>
      rw [nodeAt, follow_vacant] at hn
      cases hn
    | node b' l' es nw ne sw se =>
      obtain ⟨rfl, rfl⟩ := h.bounds_level
      obtain ⟨hp, hin, hl⟩ := ih (h.deeper q) (h.within_child q) hn
      refine ⟨hp, hin, ?_⟩
      rw [hl, List.length_cons]
      omega

section Node

variable {es : Table Rect V} {nw ne sw se : Subtree V}

theorem Placed.stays (h : Placed g b l (node b l es nw ne sw se)) : ∀ e ∈ es.entries, g.target l b (.ofRect e.1) = none := by
  cases h with
  | present distinct stays divided goes deeper => exact stays

theorem Placed.divided (h : Placed g b l (node b l es nw ne sw se)) {q : Quadrant}
    (hq : (node b l es nw ne sw se).child q ≠ vacant) : g.canDivide l b = true := by
  cases h with
  | present distinct stays divided goes deeper => exact divided q hq

/-- a child has the bounds of its quadrant and the next level, under a node that may be divided -/
theorem Placed.child_top (h : Placed g b l (node b l es nw ne sw se)) {q : Quadrant} {c : Node V}
    (hc : ((node b l es nw ne sw se).child q).top = some c) :
    g.canDivide l b = true ∧ c.bounds = b.quadrant q ∧ c.level = l + 1 := by
  obtain ⟨nw', ne', sw', se', hn⟩ := top_eq_some hc
  have hdiv := h.divided (q := q) (by rw [hn]; simp)
  have hp := h.deeper q
  rw [hn] at hp
  obtain ⟨hb, hl⟩ := hp.bounds_level
  exact ⟨hdiv, hb, hl⟩

end Node

/-- levels do not exceed the greatest height: the node above is one that may be divided -/
theorem Placed.level_le {t : Subtree V} (h : Placed g b l t) (hl : l ≤ g.maxHeight.toNat) {path : List Quadrant}
    {n : Node V} (hn : t.nodeAt path = some n) : n.level ≤ g.maxHeight.toNat := by
  induction path generalizing t b l with
  | nil =>
    obtain ⟨nw, ne, sw, se, rfl⟩ : ∃ nw ne sw se, t = node n.bounds n.level n.entries nw ne sw se := top_eq_some hn
    obtain ⟨-, hle⟩ := h.bounds_level
    exact hle ▸ hl
  | cons q path ih =>
    cases t with
    | vacant =>
      rw [nodeAt, follow_vacant] at hn
      cases hn
    | node b' l' es nw ne sw se =>
      obtain ⟨rfl, rfl⟩ := h.bounds_level
      have hq : (node b' l' es nw ne sw se).child q ≠ vacant := by
        intro hv
        rw [nodeAt, Subtree.follow, hv, follow_vacant] at hn
        cases hn
      exact ih (h.deeper q) (Region.lt_maxHeight_of_canDivide (h.divided hq)) hn

/-! ## Descent -/

/-- insertion with only so many calls in one another, and with levels kept in words: none if it runs out of calls or
arrives at a level that does not fit -/
def insertIn (g : Region) (r : Rect) (v : V) : (calls : Nat) → Subtree V → Option (Option V × Subtree V)
  | 0, _ => none
  | _ + 1, vacant => some (none, vacant)
  | calls + 1, node b l es nw ne sw se =>
    match g.target l b (.ofRect r) with
    | none => some (es.get? r, node b l (es.insert r v) nw ne sw se)
    | some q =>
      if l + 1 < UInt32.size then
        (insertIn g r v calls (((node b l es nw ne sw se).child q).orLeaf (b.quadrant q) (l + 1))).map fun (old, below) =>
          (old, (node b l es nw ne sw se).setChild q below)
      else none

/-- **An insertion ends.** It goes through no more nodes than there are levels from its start to the greatest height, and
every level on its way fits in a word. -/
theorem Placed.insertIn_eq {t : Subtree V} (h : Placed g b l t) {calls : Nat} (hc : g.maxHeight.toNat < l + calls)
    (hcalls : 0 < calls) (r : Rect) (v : V) : t.insertIn g r v calls = some (t.insert g r v) := by
  fun_induction Subtree.insert g r v t generalizing b l calls with
  | case1 =>
    obtain ⟨calls, rfl⟩ := Nat.exists_eq_succ_of_ne_zero (Nat.ne_of_gt hcalls)
    rfl
  | case2 b' l' es nw ne sw se hq =>
    obtain ⟨calls, rfl⟩ := Nat.exists_eq_succ_of_ne_zero (Nat.ne_of_gt hcalls)
    simp only [insertIn, hq]
  | case3 b' l' es nw ne sw se q hq old below hr ih =>
    obtain ⟨rfl, rfl⟩ := h.bounds_level
    obtain ⟨calls, rfl⟩ := Nat.exists_eq_succ_of_ne_zero (Nat.ne_of_gt hcalls)
    -- the node may be divided, so the next level is one that the region allows
    have hl := Region.lt_maxHeight_of_canDivide (Region.canDivide_of_target hq)
    have hsize : g.maxHeight.toNat < UInt32.size := g.maxHeight.toNat_lt_size
    have hbelow := ih (h.deeper q).orLeaf (show g.maxHeight.toNat < l' + 1 + calls by omega) (by omega)
    rw [hr] at hbelow
    simp only [insertIn, hq, if_pos (show l' + 1 < UInt32.size by omega), hbelow, Option.map_some]

/-! ## Depth -/

section Node

variable {es : Table Rect V} {nw ne sw se : Subtree V}

theorem depth_child_le (q : Quadrant) : ((node b l es nw ne sw se).child q).depth ≤ (node b l es nw ne sw se).depth := by
  rw [depth]
  split
  · rename_i hall
    simp only [Bool.and_eq_true] at hall
    obtain ⟨⟨⟨h1, h2⟩, h3⟩, h4⟩ := hall
    cases q with
    | nw => exact eq_vacant_of_isVacant h1 ▸ Nat.zero_le l
    | ne => exact eq_vacant_of_isVacant h2 ▸ Nat.zero_le l
    | sw => exact eq_vacant_of_isVacant h3 ▸ Nat.zero_le l
    | se => exact eq_vacant_of_isVacant h4 ▸ Nat.zero_le l
  · cases q <;> simp only [child] <;> omega

/-- the depth of a node without children is its level, and that of a node with children is one of theirs -/
theorem depth_cases (b : Box) (l : Nat) (es : Table Rect V) (nw ne sw se : Subtree V) :
    ((∀ q, (node b l es nw ne sw se).child q = vacant) ∧ (node b l es nw ne sw se).depth = l) ∨
      ∃ q, (node b l es nw ne sw se).child q ≠ vacant ∧
        (node b l es nw ne sw se).depth = ((node b l es nw ne sw se).child q).depth := by
  by_cases hall : ∀ q, (node b l es nw ne sw se).child q = vacant
  · refine .inl ⟨hall, ?_⟩
    have h1 : nw = vacant := hall .nw
    have h2 : ne = vacant := hall .ne
    have h3 : sw = vacant := hall .sw
    have h4 : se = vacant := hall .se
    subst h1 h2 h3 h4
    rfl
  · obtain ⟨p, hp⟩ := Classical.not_forall.1 hall
    have hdepth : (node b l es nw ne sw se).depth = max (max nw.depth ne.depth) (max sw.depth se.depth) := by
      rw [depth, if_neg]
      intro hv
      simp only [Bool.and_eq_true] at hv
      obtain ⟨⟨⟨h1, h2⟩, h3⟩, h4⟩ := hv
      apply hall
      intro q
      cases q with
      | nw => exact eq_vacant_of_isVacant h1
      | ne => exact eq_vacant_of_isVacant h2
      | sw => exact eq_vacant_of_isVacant h3
      | se => exact eq_vacant_of_isVacant h4
    obtain ⟨q, hq⟩ : ∃ q, (node b l es nw ne sw se).depth = ((node b l es nw ne sw se).child q).depth := by
      rw [hdepth]
      rcases Nat.le_total (max nw.depth ne.depth) (max sw.depth se.depth) with hm | hm
      · rcases Nat.le_total sw.depth se.depth with hs | hs
        · exact ⟨.se, by simp only [child]; omega⟩
        · exact ⟨.sw, by simp only [child]; omega⟩
      · rcases Nat.le_total nw.depth ne.depth with hs | hs
        · exact ⟨.ne, by simp only [child]; omega⟩
        · exact ⟨.nw, by simp only [child]; omega⟩
    by_cases hv : (node b l es nw ne sw se).child q = vacant
    · -- then no child is deeper than a vacant place
      have hle : ((node b l es nw ne sw se).child p).depth ≤ (node b l es nw ne sw se).depth := depth_child_le p
      rw [hv] at hq
      exact .inr ⟨p, hp, Nat.le_antisymm (hq ▸ Nat.zero_le _) hle⟩
    · exact .inr ⟨q, hv, hq⟩

end Node

/-- **The depth is the greatest level of a node.** -/
theorem Placed.depth_greatest {t : Subtree V} (h : Placed g b l t) (ht : t ≠ vacant) :
    (∃ path n, t.nodeAt path = some n ∧ n.level = t.depth) ∧ ∀ path n, t.nodeAt path = some n → n.level ≤ t.depth := by
  induction h with
  | absent => exact absurd rfl ht
  | @present b l es nw ne sw se distinct stays divided goes deeper ih =>
    have hplaced := Placed.present distinct stays divided goes deeper
    -- a child is one level further down, so the node itself is above its depth
    have hlevel : ∀ q, (node b l es nw ne sw se).child q ≠ vacant → l < ((node b l es nw ne sw se).child q).depth := by
      intro q hq
      obtain ⟨c, hc⟩ := top_isSome hq
      have := (ih q hq).2 [] c hc
      rw [(hplaced.child_top hc).2.2] at this
      exact this
    rcases depth_cases b l es nw ne sw se with ⟨hnone, hd⟩ | ⟨q, hq, hd⟩
    · refine ⟨⟨[], _, rfl, hd.symm⟩, ?_⟩
      intro path n hn
      cases path with
      | nil =>
        obtain rfl := Option.some.inj hn
        exact Nat.le_of_eq hd.symm
      | cons p path =>
        rw [nodeAt, Subtree.follow, hnone p, follow_vacant] at hn
        cases hn
    · obtain ⟨path, n, hn, hl⟩ := (ih q hq).1
      refine ⟨⟨q :: path, n, hn, hl.trans hd.symm⟩, ?_⟩
      intro path n hn
      cases path with
      | nil =>
        obtain rfl := Option.some.inj hn
        exact Nat.le_of_lt (hd ▸ hlevel q hq)
      | cons p path =>
        have hp : (node b l es nw ne sw se).child p ≠ vacant := by
          intro hv
          rw [nodeAt, Subtree.follow, hv, follow_vacant] at hn
          cases hn
        exact Nat.le_trans ((ih p hp).2 path n hn) (depth_child_le p)

end Subtree

namespace Quadtree

variable {V : Type}

open Subtree

/-! ## Main result -/

/-- how a tree over a region is represented, told by the paths to its nodes -/
structure Represented (g : Region) (t : Subtree V) : Prop where
  /-- the root has the bounds of the region and level 1 -/
  root : ∃ n, t.nodeAt [] = some n ∧ n.bounds = g.bounds ∧ n.level = 1
  /-- every other node is under one that may be divided, with the bounds of its quadrant there and the next level -/
  parent : ∀ path q c, t.nodeAt (path ++ [q]) = some c → ∃ n, t.nodeAt path = some n ∧
    g.canDivide n.level n.bounds = true ∧ c.bounds = n.bounds.quadrant q ∧ c.level = n.level + 1
  /-- an entry is within its node and all nodes above it; each of those sends it on towards its node, where it stays -/
  entry : ∀ path rest n m, t.nodeAt path = some n → t.nodeAt (path ++ rest) = some m → ∀ e ∈ m.entries.entries,
    e.1.isValid = true ∧ n.bounds.contains (.ofRect e.1) = true ∧ g.target n.level n.bounds (.ofRect e.1) = rest.head?
  /-- no two entries are under equal rectangles -/
  distinct : t.contents.Distinct

theorem Sound.represented {t : Quadtree V} (h : t.Sound) : Represented t.region t.root where
  root := by
    obtain ⟨n, hn⟩ := top_isSome h.rooted
    obtain ⟨nw, ne, sw, se, ht⟩ := top_eq_some hn
    have hp := h.placed
    rw [ht] at hp
    obtain ⟨hb, hl⟩ := hp.bounds_level
    exact ⟨n, hn, hb, hl⟩
  parent := by
    intro path q c hc
    rw [nodeAt, follow_append] at hc
    cases hf : t.root.follow path with
    | vacant =>
      rw [hf] at hc
      cases hc
    | node b l es nw ne sw se =>
      have hn : t.root.nodeAt path = some ⟨b, l, es⟩ := by rw [nodeAt, hf]; rfl
      obtain ⟨hp, -, -⟩ := h.placed.follow h.within hn
      rw [hf] at hp hc
      exact ⟨_, hn, hp.child_top hc⟩
  entry := by
    intro path rest n m hn hm e he
    rw [nodeAt, follow_append] at hm
    obtain ⟨hp, hw, -⟩ := h.placed.follow h.within hn
    have hin := mem_toList_of_follow (mem_toList_of_top hm he)
    refine ⟨h.valid e (mem_toList_of_follow hin), hw e hin, ?_⟩
    obtain ⟨nw, ne, sw, se, ht⟩ := top_eq_some hn
    rw [ht] at hp hm
    cases rest with
    | nil =>
      obtain rfl := Option.some.inj hm
      exact hp.stays e he
    | cons q rest => exact hp.goes q e (mem_toList_of_follow (mem_toList_of_top hm he))
  distinct := h.placed.contents_distinct

theorem maxHeight_pos_of_new {g : Region} {t : Quadtree V} (h : new g = .ok t) : 0 < g.maxHeight.toNat := by
  rw [Nat.pos_iff_ne_zero]
  intro hz
  have hzero : g.maxHeight = 0 := UInt32.toNat_inj.1 hz
  -- the check of the height fails if that of the extent has not
  unfold new Region.validate at h
  simp only [hzero, if_true] at h
  split at h
  · rename_i hv
    split at hv <;> cases hv
  · cases h

/-- **A quadtree is represented as it should be.** After any calls on a new tree, by the paths to its nodes: bounds,
levels and entries are in their places (`Represented`); the level of a node is one more than the steps to it, and neither
exceeds the greatest height nor outgrows a word; the depth of the tree is the greatest level of a node; and an insertion
of anything at all goes through no more nodes than the greatest height, with every level on its way fitting in a word. -/
theorem represented_of_run {g : Region} {t₀ : Quadtree V} (h : new g = .ok t₀) (ops : List (Op V)) :
    let t := t₀.run ops
    Represented g t.root ∧
    (∀ path n, t.root.nodeAt path = some n →
      n.level = path.length + 1 ∧ n.level ≤ g.maxHeight.toNat ∧ n.level < UInt32.size) ∧
    ((∃ path n, t.root.nodeAt path = some n ∧ n.level = t.depth) ∧
      ∀ path n, t.root.nodeAt path = some n → n.level ≤ t.depth) ∧
    ∀ r v, t.root.insertIn g r v g.maxHeight.toNat = some (t.root.insert g r v) := by
  intro t
  have ha : Agrees g t (reference g ops) := by
    rw [show t = (empty g).run ops by rw [← new_eq_ok h]]
    exact run_empty_agrees g ops
  have hr : Represented g t.root := ha.region ▸ ha.sound.represented
  have hg := maxHeight_pos_of_new h
  have hplaced : t.root.Placed g g.bounds 1 := ha.region ▸ ha.sound.placed
  have hwithin : t.root.Within g.bounds := ha.region ▸ ha.sound.within
  refine ⟨hr, ?_, hplaced.depth_greatest ha.sound.rooted, ?_⟩
  · intro path n hn
    obtain ⟨-, -, hl⟩ := hplaced.follow hwithin hn
    have hle := hplaced.level_le hg hn
    exact ⟨by omega, hle, Nat.lt_of_le_of_lt hle g.maxHeight.toNat_lt_size⟩
  · intro r v
    exact hplaced.insertIn_eq (by omega) hg r v

/-- a square that is eight numbers wide, with as many levels as a word can count -/
def grain : Region :=
  ⟨.ofInt 9007199254740992, .ofInt 9007199254740992, .ofInt 16, .ofInt 16, 4294967295, .zero, true⟩

def grainOps : List (Op Nat) :=
  [.insert ⟨.ofInt 9007199254740994, .ofInt 9007199254740994, .zero, .zero⟩ 1,
    .insert ⟨.ofInt 9007199254741006, .ofInt 9007199254740994, .ofInt 2, .zero⟩ 2,
    .remove ⟨.ofInt 9007199254740994, .ofInt 9007199254740994, .zero, .zero⟩]

/-- where nothing but the numbers themselves ends the division, the deepest node is two steps down -/
theorem represented_on_grain :
    new grain = .ok (empty grain : Quadtree Nat) ∧
      ∃ path n, ((empty grain).run grainOps).root.nodeAt path = some n ∧ n.level = 3 ∧ path.length = 2 := by
  have h : new grain = .ok (empty grain : Quadtree Nat) := new_of_validate (by decide +kernel)
  obtain ⟨-, hlevel, ⟨⟨path, n, hn, hd⟩, -⟩, -⟩ := represented_of_run h grainOps
  have hdepth : ((empty grain).run grainOps).depth = 3 := by decide +kernel
  have hl : n.level = path.length + 1 := (hlevel path n hn).1
  exact ⟨h, path, n, hn, hd.trans hdepth, by omega⟩

end Quadtree
end EventMatching
