/-
Which nodes a quadtree has.

`Region.path` is the way of a rectangle: the quadrants that its box goes through from the root. A path leads to an entry
just if it is the beginning of the way of the entry's rectangle (`Placed.mem_follow`). A tree that drops empty nodes is
its own condensed tree in every state of a run (`run_condensed`), and the nodes of such a tree are the root and the
beginnings of the ways of the stored rectangles (`Condensed.nodeAt_iff`), so the tree without its entries, its
`skeleton`, does not depend on how they came in. An insertion makes the nodes along a way, and a removal takes exactly
those away again (`Placed.remove_insert`); if it drops none, they are there for good (`Placed.nodeAt_insert`,
`skeleton_remove`). The main result is `shape_of_run`.
-/
import EventMatching.Proofs.Quadtree.Pruning
import EventMatching.Proofs.Value

namespace EventMatching

namespace Region

/-! ## Ways -/

/-- the quadrants that a box goes through from a node until it stays -/
def pathFrom (g : Region) (l : Nat) (b box : Box) : List Quadrant :=
  match _h : g.target l b box with
  | none => []
  | some q => q :: g.pathFrom (l + 1) (b.quadrant q) box
termination_by g.maxHeight.toNat - l
decreasing_by
  have := lt_maxHeight_of_canDivide (canDivide_of_target _h)
  omega

/-- the quadrants that a rectangle goes through from a root of level 1 that has the bounds of the region -/
def path (g : Region) (r : Rect) : List Quadrant := g.pathFrom 1 g.bounds (.ofRect r)

variable {g : Region} {l : Nat} {b box : Box} {q : Quadrant}

theorem pathFrom_of_stays (h : g.target l b box = none) : g.pathFrom l b box = [] := by
  rw [pathFrom]
  split
  · rfl
  · rename_i p hp
    rw [h] at hp
    cases hp

theorem pathFrom_of_goes (h : g.target l b box = some q) :
    g.pathFrom l b box = q :: g.pathFrom (l + 1) (b.quadrant q) box := by
  rw [pathFrom]
  split
  · rename_i hn
    rw [h] at hn
    cases hn
  · rename_i p hp
    rw [h] at hp
    obtain rfl := Option.some.inj hp
    rfl

/-- a path is the beginning of a way if its first quadrant is where the box goes and the rest is one from there on -/
theorem cons_prefix_pathFrom {path : List Quadrant} :
    q :: path <+: g.pathFrom l b box ↔
      g.target l b box = some q ∧ path <+: g.pathFrom (l + 1) (b.quadrant q) box := by
  cases h : g.target l b box with
  | none => simp [pathFrom_of_stays h]
  | some p =>
    rw [pathFrom_of_goes h, List.cons_prefix_cons, Option.some.injEq]
    constructor
    · rintro ⟨rfl, hpath⟩
      exact ⟨rfl, hpath⟩
    · rintro ⟨rfl, hpath⟩
      exact ⟨rfl, hpath⟩

theorem pathFrom_congr {a a' : Box} (h : a.Alike a') : g.pathFrom l b a = g.pathFrom l b a' := by
  fun_induction g.pathFrom l b a with
  | case1 l b hq =>
    rw [pathFrom_of_stays (by rwa [← g.target_congr l b h])]
  | case2 l b q hq ih =>
    have hq' : g.target l b a' = some q := by rwa [← g.target_congr l b h]
    rw [pathFrom_of_goes hq', ih]

/-- equal rectangles have one way -/
theorem path_congr {r r' : Rect} (h : r == r') : g.path r = g.path r' := pathFrom_congr (Box.ofRect_alike h)

end Region

namespace Subtree

variable {V : Type} {g : Region} {b : Box} {l : Nat}

/-- **The entries behind a path** are those whose rectangles take it. -/
theorem Placed.mem_follow {t : Subtree V} (h : Placed g b l t) {path : List Quadrant} {e : Rect × V} :
    e ∈ (t.follow path).toList ↔ e ∈ t.toList ∧ path <+: g.pathFrom l b (.ofRect e.1) := by
  induction path generalizing t b l with
  | nil => simp [Subtree.follow]
  | cons q path ih =>
    cases t with
    | vacant => simp [follow_vacant, toList]
    | node b' l' es nw ne sw se =>
      obtain ⟨rfl, rfl⟩ := h.bounds_level
      rw [Subtree.follow, ih (h.deeper q), Region.cons_prefix_pathFrom]
      constructor
      · rintro ⟨hmem, hpath⟩
        exact ⟨mem_toList.2 (.inr ⟨q, hmem⟩), h.goes q e hmem, hpath⟩
      · rintro ⟨hmem, hq, hpath⟩
        refine ⟨?_, hpath⟩
        rcases mem_toList.1 hmem with hown | ⟨p, hp⟩
        · rw [h.stays e hown] at hq
          cases hq
        · rw [h.goes p e hp] at hq
          obtain rfl := Option.some.inj hq
          exact hp

/-! ## Condensed subtrees -/

/-- no node below the top is without an entry at or below it -/
def Condensed (t : Subtree V) : Prop := t.condensed = t

theorem condensed_condensed (t : Subtree V) : t.condensed.Condensed := by
  have hplace {u : Subtree V} (hu : u.condensed.Condensed) :
      u.condensed.unlessEmpty.condensed.unlessEmpty = u.condensed.unlessEmpty := by
    cases hempty : u.isEmpty with
    | true => rw [unlessEmpty_of_isEmpty hempty]; rfl
    | false =>
      rw [unlessEmpty_of_not_isEmpty hempty, hu, unlessEmpty_of_not_isEmpty hempty]
  induction t with
  | vacant => rfl
  | node b l es nw ne sw se ih1 ih2 ih3 ih4 =>
    simp only [Condensed, condensed, hplace ih1, hplace ih2, hplace ih3, hplace ih4]

theorem condensed_leaf (b : Box) (l : Nat) : (leaf b l : Subtree V).Condensed := rfl

/-- a quadrant of a condensed subtree is vacant, or condensed and not without an entry -/
theorem Condensed.child {t : Subtree V} (h : t.Condensed) (q : Quadrant) :
    t.child q = vacant ∨ (t.child q).Condensed ∧ (t.child q).isEmpty = false := by
  have hq := child_condensed t q
  rw [h] at hq
  cases hempty : (t.child q).isEmpty with
  | true =>
    rw [unlessEmpty_of_isEmpty hempty] at hq
    exact .inl hq
  | false =>
    rw [unlessEmpty_of_not_isEmpty hempty] at hq
    exact .inr ⟨hq.symm, rfl⟩

/-- where there is an entry, there is a node -/
theorem ne_vacant_of_not_isEmpty {t : Subtree V} (h : t.isEmpty = false) : t ≠ vacant := by
  rintro rfl
  cases h

/-- **The nodes of a condensed subtree** are its top and the beginnings of the ways of its entries. -/
theorem Condensed.nodeAt_iff {t : Subtree V} (h : t.Condensed) (hp : Placed g b l t) (ht : t ≠ vacant)
    {path : List Quadrant} :
    (t.nodeAt path).isSome = true ↔ path = [] ∨ ∃ e ∈ t.toList, path <+: g.pathFrom l b (.ofRect e.1) := by
  have hnode := nodeAt_condensed t path
  rw [h] at hnode
  have hbehind : (t.follow path).isEmpty = false ↔ ∃ e ∈ t.toList, path <+: g.pathFrom l b (.ofRect e.1) := by
    rw [← Bool.not_eq_true, Quadtree.isEmpty_iff, List.eq_nil_iff_forall_not_mem]
    simp only [hp.mem_follow, Classical.not_forall, Classical.not_not]
  rw [← hbehind]
  constructor
  · intro hsome
    split at hnode
    · assumption
    · rw [hnode] at hsome
      cases hsome
  · rintro (rfl | hentry)
    · obtain ⟨n, hn⟩ := top_isSome ht
      exact Option.isSome_iff_exists.2 ⟨n, hn⟩
    · obtain ⟨n, hn⟩ := top_isSome (ne_vacant_of_not_isEmpty hentry)
      exact Option.isSome_iff_exists.2 ⟨n, hn⟩

/-- a place that is taken stays as it is -/
theorem orLeaf_of_ne_vacant {t : Subtree V} (h : t ≠ vacant) (b : Box) (l : Nat) : t.orLeaf b l = t := by
  cases t with
  | vacant => exact absurd rfl h
  | node => rfl

/-- a condensed subtree without an entry has no node but its top -/
theorem Condensed.eq_leaf {t : Subtree V} (h : t.Condensed) (hp : Placed g b l t) (ht : t ≠ vacant)
    (hempty : t.isEmpty = true) : t = leaf b l := by
  have hcondensed := hp.condensed_orLeaf
  rwa [unlessEmpty_of_isEmpty hempty, orLeaf_of_ne_vacant ht, h] at hcondensed

/-! ## Skeletons -/

/-- the nodes of a subtree without their entries -/
def skeleton : Subtree V → Subtree Unit
  | vacant => vacant
  | node b l _ nw ne sw se => node b l .empty nw.skeleton ne.skeleton sw.skeleton se.skeleton

@[simp] theorem nodeCount_skeleton (t : Subtree V) : t.skeleton.nodeCount = t.nodeCount := by
  induction t with
  | vacant => rfl
  | node b l es nw ne sw se ih1 ih2 ih3 ih4 => simp only [skeleton, nodeCount, ih1, ih2, ih3, ih4]

theorem isVacant_skeleton (t : Subtree V) : t.skeleton.isVacant = t.isVacant := by
  cases t <;> rfl

@[simp] theorem depth_skeleton (t : Subtree V) : t.skeleton.depth = t.depth := by
  induction t with
  | vacant => rfl
  | node b l es nw ne sw se ih1 ih2 ih3 ih4 => simp only [skeleton, depth, isVacant_skeleton, ih1, ih2, ih3, ih4]

theorem child_skeleton (t : Subtree V) (q : Quadrant) : t.skeleton.child q = (t.child q).skeleton := by
  cases t with
  | vacant => rfl
  | node => cases q <;> rfl

theorem skeleton_setChild (t u : Subtree V) (q : Quadrant) :
    (t.setChild q u).skeleton = t.skeleton.setChild q u.skeleton := by
  cases t with
  | vacant => rfl
  | node => cases q <;> rfl

theorem isSome_nodeAt_skeleton (t : Subtree V) (path : List Quadrant) :
    (t.skeleton.nodeAt path).isSome = (t.nodeAt path).isSome := by
  induction path generalizing t with
  | nil => cases t <;> rfl
  | cons q path ih =>
    have hstep : t.skeleton.nodeAt (q :: path) = (t.child q).skeleton.nodeAt path := by
      rw [← child_skeleton]
      rfl
    rw [hstep, ih]
    rfl

/-- **Subtrees placed alike are alike if they have nodes behind the same paths**: bounds and levels follow. -/
theorem Placed.skeleton_eq {W : Type} {t : Subtree V} {u : Subtree W} (h : Placed g b l t) (hu : Placed g b l u)
    (hnodes : ∀ path, (t.nodeAt path).isSome = (u.nodeAt path).isSome) : t.skeleton = u.skeleton := by
  induction t generalizing b l u with
  | vacant =>
    have htop := hnodes []
    cases u with
    | vacant => rfl
    | node => cases htop
  | node b' l' es nw ne sw se ih1 ih2 ih3 ih4 =>
    have htop := hnodes []
    cases u with
    | vacant => cases htop
    | node b'' l'' es' nw' ne' sw' se' =>
      obtain ⟨rfl, rfl⟩ := h.bounds_level
      obtain ⟨rfl, rfl⟩ := hu.bounds_level
      simp only [skeleton, node.injEq, true_and]
      exact ⟨ih1 (h.deeper .nw) (hu.deeper .nw) fun path => hnodes (.nw :: path),
        ih2 (h.deeper .ne) (hu.deeper .ne) fun path => hnodes (.ne :: path),
        ih3 (h.deeper .sw) (hu.deeper .sw) fun path => hnodes (.sw :: path),
        ih4 (h.deeper .se) (hu.deeper .se) fun path => hnodes (.se :: path)⟩

/-! ## Insertion and removal -/

theorem setChild_setChild (t u w : Subtree V) (q : Quadrant) : (t.setChild q u).setChild q w = t.setChild q w := by
  cases t with
  | vacant => rfl
  | node => cases q <;> rfl

theorem top_setChild (t u : Subtree V) (q : Quadrant) : (t.setChild q u).top = t.top := by
  cases t with
  | vacant => rfl
  | node => cases q <;> rfl

/-- behind one quadrant a path leads on into the place that is there -/
theorem nodeAt_cons (t : Subtree V) (q : Quadrant) (path : List Quadrant) :
    t.nodeAt (q :: path) = (t.child q).nodeAt path := rfl

theorem isSome_nodeAt_orLeaf (t : Subtree V) (path : List Quadrant) :
    ((t.orLeaf b l).nodeAt path).isSome = true ↔ (t.nodeAt path).isSome = true ∨ path = [] := by
  cases path with
  | nil =>
    obtain ⟨n, hn⟩ := top_isSome (orLeaf_ne_vacant t b l)
    have htop : (t.orLeaf b l).nodeAt [] = some n := hn
    simp [htop]
  | cons q path =>
    have hchild : (t.orLeaf b l).child q = t.child q := by
      cases t with
      | vacant => cases q <;> rfl
      | node => rfl
    rw [nodeAt_cons, nodeAt_cons, hchild]
    simp

/-- a leaf is all there is of it -/
theorem isSome_nodeAt_leaf (b : Box) (l : Nat) (path : List Quadrant) :
    ((leaf b l : Subtree V).nodeAt path).isSome = true ↔ path = [] := by
  cases path with
  | nil => exact iff_of_true rfl rfl
  | cons q path =>
    have hchild : (leaf b l : Subtree V).child q = vacant := by cases q <;> rfl
    rw [nodeAt_cons, hchild, nodeAt, follow_vacant]
    simp [top]

/-- **An insertion makes the nodes along the way of its rectangle** and no others. -/
theorem Placed.nodeAt_insert {t : Subtree V} (h : Placed g b l t) (ht : t ≠ vacant) (r : Rect) (v : V)
    (path : List Quadrant) :
    ((t.insert g r v).2.nodeAt path).isSome = true ↔
      (t.nodeAt path).isSome = true ∨ path <+: g.pathFrom l b (.ofRect r) := by
  fun_induction Subtree.insert g r v t generalizing b l path with
  | case1 => exact absurd rfl ht
  | case2 b' l' es nw ne sw se hq =>
    obtain ⟨rfl, rfl⟩ := h.bounds_level
    rw [Region.pathFrom_of_stays hq, List.prefix_nil]
    cases path with
    | nil => exact iff_of_true rfl (.inl rfl)
    | cons p path =>
      have hchild : (node b' l' (es.insert r v) nw ne sw se).child p = (node b' l' es nw ne sw se).child p := rfl
      rw [nodeAt_cons, nodeAt_cons, hchild]
      simp
  | case3 b' l' es nw ne sw se q hq old below hr ih =>
    obtain ⟨rfl, rfl⟩ := h.bounds_level
    have ih := ih (h.deeper q).orLeaf (orLeaf_ne_vacant _ _ _)
    rw [hr] at ih
    cases path with
    | nil =>
      have htop : ((node b' l' es nw ne sw se).setChild q below).nodeAt [] = some ⟨b', l', es⟩ := top_setChild _ _ _
      rw [htop]
      exact iff_of_true rfl (.inl rfl)
    | cons p path =>
      rw [nodeAt_cons, nodeAt_cons, Region.cons_prefix_pathFrom]
      by_cases hpq : p = q
      · subst hpq
        rw [child_setChild_self _ _ _ (by simp), ih, isSome_nodeAt_orLeaf]
        constructor
        · rintro ((hnode | rfl) | hpath)
          · exact .inl hnode
          · exact .inr ⟨hq, List.nil_prefix⟩
          · exact .inr ⟨hq, hpath⟩
        · rintro (hnode | ⟨-, hpath⟩)
          · exact .inl (.inl hnode)
          · exact .inr hpath
      · have hother : ¬g.target l' b' (.ofRect r) = some p := by
          rw [hq, Option.some.injEq]
          exact fun hqp => hpq hqp.symm
        rw [child_setChild_of_ne _ _ hpq]
        simp [hother]

/-- a removal that drops no nodes leaves them all where they are -/
theorem skeleton_remove (hg : g.prune = false) (t : Subtree V) (r : Rect) :
    (t.remove g r).2.skeleton = t.skeleton := by
  fun_induction Subtree.remove g r t with
  | case1 => rfl
  | case2 b l es nw ne sw se hq => rfl
  | case3 b l es nw ne sw se q hq old below hr ih =>
    have hkept : below.pruned (old.isSome && g.prune) = below := by
      rw [hg, Bool.and_false]
      rfl
    rw [hr] at ih
    rw [hkept, skeleton_setChild, ih, ← child_skeleton, setChild_child]

/-- the place that an insertion goes on to is condensed, and dropping it if it is bare gives back what was there -/
theorem Condensed.orLeaf_child {t : Subtree V} (h : t.Condensed) (q : Quadrant) (b : Box) (l : Nat) :
    ((t.child q).orLeaf b l).Condensed ∧ ((t.child q).orLeaf b l).pruned true = t.child q := by
  rcases h.child q with hv | ⟨hc, hentry⟩
  · rw [hv]
    exact ⟨condensed_leaf b l, rfl⟩
  · rw [orLeaf_of_ne_vacant (ne_vacant_of_not_isEmpty hentry)]
    refine ⟨hc, ?_⟩
    have hdropped := pruned_condensed (t.child q)
    rwa [unlessEmpty_of_not_isEmpty hentry, hc] at hdropped

/-- **Removing what was just inserted undoes the insertion**, nodes and all. -/
theorem Placed.remove_insert {t : Subtree V} (h : Placed g b l t) (ht : t ≠ vacant) (hc : t.Condensed)
    (hg : g.prune = true) {r : Rect} (hr : r == r) (hlacks : Table.Lacks t.toList r) (v : V) :
    (t.insert g r v).2.remove g r = (some v, t) := by
  fun_induction Subtree.insert g r v t generalizing b l with
  | case1 => exact absurd rfl ht
  | case2 b' l' es nw ne sw se hq =>
    have hown : Table.Lacks es.entries r := fun e he => hlacks e (mem_toList.2 (.inl he))
    rw [Subtree.remove]
    split
    · rw [Table.get?_insert, if_pos hr, Table.erase_insert hown hr]
    · rename_i q hgoes
      rw [hq] at hgoes
      cases hgoes
  | case3 b' l' es nw ne sw se q hq old below hbelow ih =>
    obtain ⟨rfl, rfl⟩ := h.bounds_level
    obtain ⟨hcondensed, hdropped⟩ := hc.orLeaf_child q (b'.quadrant q) (l' + 1)
    have hlacks' : Table.Lacks (((node b' l' es nw ne sw se).child q).orLeaf (b'.quadrant q) (l' + 1)).toList r := by
      rw [toList_orLeaf]
      exact fun e he => hlacks e (mem_toList.2 (.inr ⟨q, he⟩))
    have ih := ih (h.deeper q).orLeaf (orLeaf_ne_vacant _ _ _) hcondensed hlacks'
    rw [hbelow] at ih
    have hgoes := remove_goes (g := g) (top_setChild (node b' l' es nw ne sw se) below q) hq
    rw [hgoes, child_setChild_self _ _ _ (by simp)]
    simp only [ih, hg, Option.isSome_some, Bool.and_true, hdropped, setChild_setChild, setChild_child]

end Subtree

namespace Quadtree

variable {V : Type} {g : Region}

open Subtree

/-! ## Runs -/

/-- among the calls there is an insertion of the rectangle, and it succeeded when it was made -/
def Inserted (t : Quadtree V) (ops : List (Op V)) (r : Rect) : Prop :=
  ∃ before v after, ops = before ++ .insert r v :: after ∧ ((t.run before).insert r v).isOk = true

theorem inserted_cons (t : Quadtree V) (o : Op V) (ops : List (Op V)) (r : Rect) :
    t.Inserted (o :: ops) r ↔ (∃ v, o = .insert r v ∧ (t.insert r v).isOk = true) ∨ (t.step o).Inserted ops r := by
  constructor
  · rintro ⟨before, v, after, hops, hok⟩
    cases before with
    | nil =>
      obtain ⟨rfl, -⟩ := List.cons.inj hops
      exact .inl ⟨v, rfl, hok⟩
    | cons o' before =>
      obtain ⟨rfl, htail⟩ := List.cons.inj hops
      exact .inr ⟨before, v, after, htail, hok⟩
  · rintro (⟨v, rfl, hok⟩ | ⟨before, v, after, rfl, hok⟩)
    · exact ⟨[], v, ops, rfl, hok⟩
    · exact ⟨o :: before, v, after, rfl, hok⟩

/-- an insertion succeeds just if the rectangle is valid and lies in the region -/
theorem Sound.insert_isOk {t : Quadtree V} (h : t.Sound) (r : Rect) (v : V) :
    (t.insert r v).isOk = accepts t.region r := by
  rw [insert_eq t h, accepts]
  by_cases hv : r.isValid = true
  · by_cases hc : t.covers r = true
    · have hc' : t.region.bounds.contains (.ofRect r) = true := hc
      simp only [hv, hc, hc', Bool.not_true, Bool.false_eq_true, if_false]
      rfl
    · have hc' : t.region.bounds.contains (.ofRect r) = false := by simpa [covers] using hc
      simp only [hv, hc, hc', Bool.not_true, Bool.false_eq_true, if_false, Bool.not_false, if_true]
      rfl
  · simp only [hv, Bool.not_false, if_true, Bool.false_and]
    rfl

/-- a call on a tree that keeps its nodes makes those along the way of what it inserts -/
theorem step_nodeAt {t : Quadtree V} (h : t.Sound) (hg : t.region.prune = false) (o : Op V) (path : List Quadrant) :
    ((t.step o).root.nodeAt path).isSome = true ↔ (t.root.nodeAt path).isSome = true ∨
      ∃ r, (∃ v, o = .insert r v ∧ (t.insert r v).isOk = true) ∧ path <+: t.region.path r := by
  cases o with
  | insert r v =>
    have hiff :
        (∃ r', (∃ v', Op.insert r v = .insert r' v' ∧ (t.insert r' v').isOk = true) ∧ path <+: t.region.path r') ↔
          accepts t.region r = true ∧ path <+: t.region.path r := by
      constructor
      · rintro ⟨r', ⟨v', heq, hok⟩, hpath⟩
        obtain ⟨rfl, rfl⟩ := Op.insert.inj heq
        exact ⟨h.insert_isOk r v ▸ hok, hpath⟩
      · rintro ⟨hr, hpath⟩
        exact ⟨r, ⟨v, rfl, (h.insert_isOk r v).trans hr⟩, hpath⟩
    rw [hiff, step_insert t h]
    split
    · rename_i hr
      rw [h.placed.nodeAt_insert h.rooted r v path]
      simp [hr, Region.path]
    · rename_i hr
      simp [hr]
  | remove r =>
    have hkept : (t.step (.remove r)).root.skeleton = t.root.skeleton := by
      show (t.remove r).2.root.skeleton = _
      unfold Quadtree.remove
      split
      · exact skeleton_remove hg t.root r
      · rfl
    rw [← isSome_nodeAt_skeleton, hkept, isSome_nodeAt_skeleton]
    simp

theorem run_nodeAt {t : Quadtree V} {m : Table Rect V} (h : Agrees g t m) (hg : g.prune = false) (ops : List (Op V))
    (path : List Quadrant) :
    ((t.run ops).root.nodeAt path).isSome = true ↔
      (t.root.nodeAt path).isSome = true ∨ ∃ r, t.Inserted ops r ∧ path <+: g.path r := by
  induction ops generalizing t m with
  | nil =>
    have hnone : ∀ r, ¬t.Inserted [] r := by
      rintro r ⟨before, v, after, hops, -⟩
      simp at hops
    simp [run, hnone]
  | cons o ops ih =>
    have hstep := step_nodeAt h.sound (by rw [h.region, hg]) o path
    rw [h.region] at hstep
    rw [show t.run (o :: ops) = (t.step o).run ops from rfl, ih (step_agrees h o), hstep]
    simp only [inserted_cons, or_and_right, exists_or, or_assoc]

/-- what an insertion of an absent rectangle has done, its removal undoes -/
theorem Sound.remove_insert {t : Quadtree V} (h : t.Sound) (hc : t.root.Condensed) (hg : t.region.prune = true)
    {r : Rect} (hr : accepts t.region r = true) (hnone : t.get? r = none) (v : V) :
    ∃ t', t.insert r v = .ok (none, t') ∧ t'.remove r = (some v, t) := by
  obtain ⟨hvalid, hcontains⟩ := Bool.and_eq_true_iff.1 hr
  have hcovers : t.covers r = true := hcontains
  have habsent : t.root.contents.get? r = none := by rw [← h.get?_eq, hnone]
  have hundone := h.placed.remove_insert h.rooted hc hg (Rect.beq_self_of_isValid hvalid)
    (Table.get?_eq_none_iff.1 habsent) v
  refine ⟨{ t with root := (t.root.insert t.region r v).2 }, ?_, ?_⟩
  · simp only [insert_eq t h, hvalid, hcovers, habsent, Bool.not_true, Bool.false_eq_true, if_false]
  · have hcovers' : covers { t with root := (t.root.insert t.region r v).2 } r = true := hcontains
    simp only [Quadtree.remove, hcovers', if_true, hundone]

/-- **In a run that drops empty nodes the tree is condensed.** -/
theorem run_condensed (hg : g.prune = true) (ops : List (Op V)) : ((empty g).run ops : Quadtree V).root.Condensed := by
  have hself : g.pruning true = g := by
    rw [Region.pruning, ← hg]
  have htwins := run_twins (empty_twins (V := V) g) ops
  rw [hself] at htwins
  rw [htwins.root]
  exact condensed_condensed _

/-- which rectangles are stored can be told by look-up -/
theorem Sound.isSome_get?_iff {t : Quadtree V} (h : t.Sound) (r : Rect) :
    (t.get? r).isSome = true ↔ ∃ e ∈ t.root.toList, e.1 == r := by
  rw [h.get?_eq, Option.isSome_iff_exists]
  constructor
  · rintro ⟨v, hv⟩
    obtain ⟨e, he, hk, -⟩ := Table.mem_of_get? hv
    exact ⟨e, he, hk⟩
  · rintro ⟨e, he, hk⟩
    exact ⟨e.2, (Table.get?_eq_some_iff h.placed.contents_distinct).2 ⟨e, he, hk, rfl⟩⟩

/-- the nodes of a tree that drops empty ones, by the rectangles that it stores -/
theorem Sound.nodeAt_iff {t : Quadtree V} (h : t.Sound) (hc : t.root.Condensed) (path : List Quadrant) :
    (t.root.nodeAt path).isSome = true ↔ path = [] ∨ ∃ r, (t.get? r).isSome = true ∧ path <+: t.region.path r := by
  rw [hc.nodeAt_iff h.placed h.rooted]
  apply or_congr Iff.rfl
  constructor
  · rintro ⟨e, he, hpath⟩
    have hself := Rect.beq_self_of_isValid (h.valid e he)
    exact ⟨e.1, (h.isSome_get?_iff e.1).2 ⟨e, he, hself⟩, hpath⟩
  · rintro ⟨r, hr, hpath⟩
    obtain ⟨e, he, hk⟩ := (h.isSome_get?_iff r).1 hr
    refine ⟨e, he, ?_⟩
    rwa [← Region.path_congr hk] at hpath

/-- trees over one region that drop empty nodes and store the same rectangles have the same nodes -/
theorem Sound.skeleton_eq {t u : Quadtree V} (ht : t.Sound) (hu : u.Sound) (hct : t.root.Condensed)
    (hcu : u.root.Condensed) (hregion : u.region = t.region) (hsame : ∀ r, (t.get? r).isSome = (u.get? r).isSome) :
    t.root.skeleton = u.root.skeleton := by
  have hplaced := hu.placed
  rw [hregion] at hplaced
  apply ht.placed.skeleton_eq hplaced
  intro path
  rw [Bool.eq_iff_iff, ht.nodeAt_iff hct, hu.nodeAt_iff hcu, hregion]
  simp only [hsame]

/-- in a tree that drops empty nodes there is an entry at or below every node but the root -/
theorem Sound.entry_behind {t : Quadtree V} (h : t.Sound) (hc : t.root.Condensed) {path : List Quadrant} {n : Node V}
    (hpath : path ≠ []) (hn : t.root.nodeAt path = some n) : ∃ e, e ∈ (t.root.follow path).toList := by
  have hsome : (t.root.nodeAt path).isSome = true := Option.isSome_iff_exists.2 ⟨n, hn⟩
  obtain hnil | ⟨e, he, hway⟩ := (hc.nodeAt_iff h.placed h.rooted).1 hsome
  · exact absurd hnil hpath
  · exact ⟨e, h.placed.mem_follow.2 ⟨he, hway⟩⟩

/-! ## Main result -/

/-- **The shape of a tree depends only on what it must.** After any calls on a new tree that drops empty nodes:

- there are nodes just at the root and behind the beginnings of the ways of the stored rectangles;
- two runs that end with the same rectangles stored end with the same tree but for entries, so with the same number of
  nodes and the same depth;
- every node but the root has an entry at or below it, and an empty tree has one node and depth 1;
- inserting an absent rectangle that the region accepts, and then removing it, gives back the very same tree, and no
  other insertion succeeds.

If empty nodes are kept, there are nodes just at the root and behind the beginnings of the ways of all rectangles whose
insertion ever succeeded. -/
theorem shape_of_run {t₀ : Quadtree V} (h : new g = .ok t₀) (ops : List (Op V)) :
    let t := t₀.run ops
    (g.prune = true →
      (∀ path, (t.root.nodeAt path).isSome = true ↔
        path = [] ∨ ∃ r, (t.get? r).isSome = true ∧ path <+: g.path r) ∧
      (∀ ops' : List (Op V), (∀ r, (t.get? r).isSome = ((t₀.run ops').get? r).isSome) →
        t.root.skeleton = (t₀.run ops').root.skeleton ∧ t.nodeCount = (t₀.run ops').nodeCount ∧
          t.depth = (t₀.run ops').depth) ∧
      (∀ path n, path ≠ [] → t.root.nodeAt path = some n → ∃ e, e ∈ (t.root.follow path).toList) ∧
      (t.isEmpty = true → t.nodeCount = 1 ∧ t.depth = 1) ∧
      ∀ r v, (t.insert r v).isOk = accepts g r ∧ (accepts g r = true → t.get? r = none →
        ∃ t', t.insert r v = .ok (none, t') ∧ t'.remove r = (some v, t))) ∧
    (g.prune = false → ∀ path, (t.root.nodeAt path).isSome = true ↔
      path = [] ∨ ∃ r, t₀.Inserted ops r ∧ path <+: g.path r) := by
  intro t
  obtain rfl := new_eq_ok h
  have hagrees (ops' : List (Op V)) : Agrees g ((empty g).run ops') (reference g ops') := run_empty_agrees g ops'
  have hregion : t.region = g := (hagrees ops).region
  have hsound : t.Sound := (hagrees ops).sound
  refine ⟨?_, ?_⟩
  · intro hg
    have hc : t.root.Condensed := run_condensed hg ops
    refine ⟨?_, ?_, fun path n => hsound.entry_behind hc, ?_, ?_⟩
    · intro path
      rw [hsound.nodeAt_iff hc, hregion]
    · intro ops' hsame
      have hskeleton := hsound.skeleton_eq (hagrees ops').sound hc (run_condensed hg ops')
        ((hagrees ops').region.trans hregion.symm) hsame
      refine ⟨hskeleton, ?_, ?_⟩
      · rw [nodeCount, nodeCount, ← nodeCount_skeleton, hskeleton, nodeCount_skeleton]
      · rw [depth, depth, ← depth_skeleton, hskeleton, depth_skeleton]
    · intro hempty
      rw [nodeCount, depth, hc.eq_leaf hsound.placed hsound.rooted hempty]
      exact ⟨rfl, rfl⟩
    · intro r v
      rw [← hregion]
      exact ⟨hsound.insert_isOk r v, fun hr hnone => hsound.remove_insert hc (by rw [hregion, hg]) hr hnone v⟩
  · intro hg path
    exact (run_nodeAt (hagrees []) hg ops path).trans (or_congr (isSome_nodeAt_leaf g.bounds 1 path) Iff.rfl)

/-- where empty nodes are kept, the node of an entry that came and went stays; where they are dropped it goes, and an
insertion at the same place is undone by a removal -/
theorem shape_on_square :
    new (square.pruning true) = .ok (empty (square.pruning true) : Quadtree Nat) ∧
      new (square.pruning false) = .ok (empty (square.pruning false) : Quadtree Nat) ∧
      let t := (empty (square.pruning true)).run comingAndGoing
      let u := (empty (square.pruning false)).run comingAndGoing
      (square.pruning false).path (block 10) = [.nw] ∧ (u.root.nodeAt [.nw]).isSome = true ∧
        (t.root.nodeAt [.nw]).isSome = false ∧
        ∃ t', t.insert (block 10) 3 = .ok (none, t') ∧ t'.remove (block 10) = (some 3, t) := by
  have h : new (square.pruning true) = .ok (empty (square.pruning true) : Quadtree Nat) :=
    new_of_validate (by decide +kernel)
  have h' : new (square.pruning false) = .ok (empty (square.pruning false) : Quadtree Nat) :=
    new_of_validate (by decide +kernel)
  obtain ⟨hdropping, -⟩ := shape_of_run h comingAndGoing
  obtain ⟨-, hkeeping⟩ := shape_of_run h' comingAndGoing
  obtain ⟨-, -, -, -, hundone⟩ := hdropping rfl
  have hway : (square.pruning false).path (block 10) = [.nw] := by decide +kernel
  have hinserted : (empty (square.pruning false)).Inserted comingAndGoing (block 10) :=
    ⟨[], 1, _, rfl, by decide +kernel⟩
  have hbegins : [.nw] <+: (square.pruning false).path (block 10) := ⟨[], hway.symm⟩
  exact ⟨h, h', hway, (hkeeping rfl [.nw]).2 (.inr ⟨block 10, hinserted, hbegins⟩), by decide +kernel,
    (hundone (block 10) 3).2 (by decide +kernel) (by decide +kernel)⟩

end Quadtree
end EventMatching
