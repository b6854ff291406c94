/-
Where the entries of a quadtree stand, and what follows for look-up, insertion and removal.

`Placed g b l t` is the invariant of a place for bounds `b` and level `l` over the region `g`: its node has these bounds
and this level, its children quarter it and are only there if it may be divided, every entry of the node stays at it by
`Region.target`, and every entry further down lies in the quadrant that `target` names. Rectangles that go different ways
are unequal, so at each node only one part of the entries matters to a rectangle. Hence, on a placed subtree:
- `Placed.get?_eq`: look-up finds what the list of all entries holds;
- `Placed.insert_toList`, `Placed.remove_toList`: insertion and removal do to all entries what they do to a table;
- `Placed.insert`, `Placed.remove`: both keep the invariant.
-/
import EventMatching.Quadtree.Basic
import EventMatching.Proofs.Table
import EventMatching.Proofs.Quadtree.Descent

namespace EventMatching
namespace Subtree

open scoped List

variable {V : Type}

/-- the entries of a subtree: those of a node, then those of its quadrants in turn -/
def toList : Subtree V → List (Rect × V)
  | vacant => []
  | node _ _ es nw ne sw se => es.entries ++ (nw.toList ++ (ne.toList ++ (sw.toList ++ se.toList)))

/-- the entries of a subtree as one table -/
def contents (t : Subtree V) : Table Rect V := ⟨t.toList⟩

/-- the invariant of a place with these bounds and this level -/
inductive Placed (g : Region) : Box → Nat → Subtree V → Prop where
  | absent (b : Box) (l : Nat) : Placed g b l vacant
  | present {b : Box} {l : Nat} {es : Table Rect V} {nw ne sw se : Subtree V} (distinct : es.Distinct)
      (stays : ∀ e ∈ es.entries, g.target l b (.ofRect e.1) = none)
      (divided : ∀ q, (node b l es nw ne sw se).child q ≠ .vacant → g.canDivide l b = true)
      (goes : ∀ q, ∀ e ∈ ((node b l es nw ne sw se).child q).toList, g.target l b (.ofRect e.1) = some q)
      (deeper : ∀ q, Placed g (b.quadrant q) (l + 1) ((node b l es nw ne sw se).child q)) :
      Placed g b l (node b l es nw ne sw se)

/-! ## The list of entries -/

/-- the entries at a node itself -/
def own : Subtree V → List (Rect × V)
  | vacant => []
  | node _ _ es _ _ _ _ => es.entries

/-- the entries below a node are those of its quadrants -/
theorem mem_below (b : Box) (l : Nat) (es : Table Rect V) {nw ne sw se : Subtree V} {e : Rect × V} :
    e ∈ nw.toList ++ (ne.toList ++ (sw.toList ++ se.toList)) ↔ ∃ q, e ∈ ((node b l es nw ne sw se).child q).toList := by
  simp only [List.mem_append]
  constructor
  · rintro (h | h | h | h)
    · exact ⟨.nw, h⟩
    · exact ⟨.ne, h⟩
    · exact ⟨.sw, h⟩
    · exact ⟨.se, h⟩
  · rintro ⟨q, h⟩
    cases q with
    | nw => exact .inl h
    | ne => exact .inr (.inl h)
    | sw => exact .inr (.inr (.inl h))
    | se => exact .inr (.inr (.inr h))

theorem mem_toList {t : Subtree V} {e : Rect × V} : e ∈ t.toList ↔ e ∈ t.own ∨ ∃ q, e ∈ (t.child q).toList := by
  cases t with
  | vacant => simp [toList, own, child]
  | node b l es nw ne sw se =>
    rw [toList, List.mem_append, mem_below b l es]
    rfl

/-- around the entries of one quadrant, those of the node and of the quadrants before it stand before them, and those of
the quadrants behind it behind them -/
theorem exists_sides {t : Subtree V} (h : t ≠ vacant) (q : Quadrant) :
    ∃ xs zs, (∀ u, (t.setChild q u).toList = xs ++ u.toList ++ zs) ∧
      (∀ e ∈ xs, e ∈ t.own ∨ ∃ p, p.index < q.index ∧ e ∈ (t.child p).toList) ∧
      ∀ e ∈ zs, ∃ p, q.index < p.index ∧ e ∈ (t.child p).toList := by
  cases t with
  | vacant => exact absurd rfl h
  | node b l es nw ne sw se =>
    cases q with
    | nw =>
      refine ⟨es.entries, ne.toList ++ (sw.toList ++ se.toList), fun u => by simp [setChild, toList],
        fun e he => .inl he, fun e he => ?_⟩
      simp only [List.mem_append] at he
      rcases he with he | he | he
      · exact ⟨.ne, by decide, he⟩
      · exact ⟨.sw, by decide, he⟩
      · exact ⟨.se, by decide, he⟩
    | ne =>
      refine ⟨es.entries ++ nw.toList, sw.toList ++ se.toList, fun u => by simp [setChild, toList],
        fun e he => ?_, fun e he => ?_⟩
      · rcases List.mem_append.1 he with he | he
        · exact .inl he
        · exact .inr ⟨.nw, by decide, he⟩
      · rcases List.mem_append.1 he with he | he
        · exact ⟨.sw, by decide, he⟩
        · exact ⟨.se, by decide, he⟩
    | sw =>
      refine ⟨es.entries ++ (nw.toList ++ ne.toList), se.toList, fun u => by simp [setChild, toList],
        fun e he => ?_, fun e he => ⟨.se, by decide, he⟩⟩
      simp only [List.mem_append] at he
      rcases he with he | he | he
      · exact .inl he
      · exact .inr ⟨.nw, by decide, he⟩
      · exact .inr ⟨.ne, by decide, he⟩
    | se =>
      refine ⟨es.entries ++ (nw.toList ++ (ne.toList ++ sw.toList)), [], fun u => by simp [setChild, toList],
        fun e he => ?_, fun e he => absurd he List.not_mem_nil⟩
      simp only [List.mem_append] at he
      rcases he with he | he | he | he
      · exact .inl he
      · exact .inr ⟨.nw, by decide, he⟩
      · exact .inr ⟨.ne, by decide, he⟩
      · exact .inr ⟨.sw, by decide, he⟩

@[simp] theorem toList_leaf (b : Box) (l : Nat) : (leaf b l : Subtree V).toList = [] := rfl

theorem toList_orLeaf (t : Subtree V) (b : Box) (l : Nat) : (t.orLeaf b l).toList = t.toList := by
  cases t <;> rfl

theorem orLeaf_ne_vacant (t : Subtree V) (b : Box) (l : Nat) : t.orLeaf b l ≠ vacant := by
  cases t <;> simp [orLeaf, isVacant, leaf]

theorem eq_vacant_of_isVacant {t : Subtree V} (h : t.isVacant = true) : t = vacant := by
  cases t with
  | vacant => rfl
  | node => cases h

theorem toList_of_isBare {t : Subtree V} (h : t.isBare = true) : t.toList = [] := by
  cases t with
  | vacant => rfl
  | node b l es nw ne sw se =>
    simp only [isBare, Bool.and_eq_true, Table.isEmpty, List.isEmpty_iff] at h
    obtain ⟨⟨⟨⟨h0, h1⟩, h2⟩, h3⟩, h4⟩ := h
    rw [eq_vacant_of_isVacant h1, eq_vacant_of_isVacant h2, eq_vacant_of_isVacant h3, eq_vacant_of_isVacant h4]
    simp [toList, h0]

theorem toList_pruned (drop : Bool) (t : Subtree V) : (t.pruned drop).toList = t.toList := by
  unfold pruned
  split
  · rename_i h
    exact (toList_of_isBare (Bool.and_eq_true_iff.1 h).2).symm
  · rfl

theorem setChild_ne_vacant {t : Subtree V} (h : t ≠ vacant) (q : Quadrant) (u : Subtree V) : t.setChild q u ≠ vacant := by
  cases t with
  | vacant => exact absurd rfl h
  | node => cases q <;> simp [setChild]

/-! ## Where a rectangle is looked for -/

variable {g : Region} {b : Box} {l : Nat}

/-- rectangles that go different ways are unequal -/
theorem unequal_of_target {r r' : Rect} (h : g.target l b (.ofRect r) ≠ g.target l b (.ofRect r')) : (r == r') = false := by
  cases hr : r == r' with
  | false => rfl
  | true => exact absurd (g.target_congr l b (Box.ofRect_alike hr)) h

/-- the entries around the quadrant that a rectangle goes to are under other rectangles -/
theorem Placed.exists_parts {t : Subtree V} (h : Placed g b l t) (ht : t ≠ vacant) {r : Rect} {q : Quadrant}
    (hq : g.target l b (.ofRect r) = some q) :
    ∃ xs zs, Table.Lacks xs r ∧ Table.Lacks zs r ∧ ∀ u, (t.setChild q u).toList = xs ++ u.toList ++ zs := by
  obtain ⟨xs, zs, hs, hxs, hzs⟩ := exists_sides ht q
  have hother : ∀ e, (e ∈ t.own ∨ ∃ p, p.index ≠ q.index ∧ e ∈ (t.child p).toList) → (e.1 == r) = false := by
    intro e he
    apply unequal_of_target (g := g) (b := b) (l := l)
    rw [hq]
    cases h with
    | absent => exact absurd rfl ht
    | present distinct stays divided goes deeper =>
      rcases he with h | ⟨p, hne, h⟩
      · rw [stays e h]; simp
      · rw [goes p e h]
        exact fun hpq => hne (congrArg Quadrant.index (Option.some.inj hpq))
  refine ⟨xs, zs, fun e he => hother e ?_, fun e he => hother e (.inr ?_), hs⟩
  · exact (hxs e he).imp id fun ⟨p, hp, hmem⟩ => ⟨p, Nat.ne_of_lt hp, hmem⟩
  · obtain ⟨p, hp, hmem⟩ := hzs e he
    exact ⟨p, Nat.ne_of_gt hp, hmem⟩

section Node

variable {es : Table Rect V} {nw ne sw se : Subtree V} {r : Rect}

/-- the entries below a node at which a rectangle stays are under other rectangles -/
theorem Placed.lacks_below (h : Placed g b l (node b l es nw ne sw se)) (hq : g.target l b (.ofRect r) = none) :
    Table.Lacks (nw.toList ++ (ne.toList ++ (sw.toList ++ se.toList))) r := by
  intro e he
  obtain ⟨q, hmem⟩ := (mem_below b l es).1 he
  apply unequal_of_target (g := g) (b := b) (l := l)
  rw [hq]
  cases h with
  | present distinct stays divided goes deeper =>
    rw [goes q e hmem]
    simp

theorem Placed.bounds_level {b' : Box} {l' : Nat} (h : Placed g b l (node b' l' es nw ne sw se)) : b' = b ∧ l' = l := by
  cases h
  exact ⟨rfl, rfl⟩

theorem Placed.distinct (h : Placed g b l (node b l es nw ne sw se)) : es.Distinct := by
  cases h with
  | present distinct stays divided goes deeper => exact distinct

theorem Placed.goes (h : Placed g b l (node b l es nw ne sw se)) (q : Quadrant) :
    ∀ e ∈ ((node b l es nw ne sw se).child q).toList, g.target l b (.ofRect e.1) = some q := by
  cases h with
  | present distinct stays divided goes deeper => exact goes q

theorem Placed.deeper (h : Placed g b l (node b l es nw ne sw se)) (q : Quadrant) :
    Placed g (b.quadrant q) (l + 1) ((node b l es nw ne sw se).child q) := by
  cases h with
  | present distinct stays divided goes deeper => exact deeper q

/-- at a node at which a rectangle stays, the entries of the node are all that matters to it -/
theorem Placed.get?_own (h : Placed g b l (node b l es nw ne sw se)) (hq : g.target l b (.ofRect r) = none) :
    (node b l es nw ne sw se).contents.get? r = es.get? r := by
  have := Table.get?_parts (Table.lacks_nil r) (h.lacks_below hq) es.entries
  rwa [List.nil_append] at this

end Node

/-! ## Look-up -/

/-- **Look-up is exact**: the descent finds the value that the list of all entries holds. -/
theorem Placed.get?_eq {t : Subtree V} (h : Placed g b l t) (r : Rect) : t.get? g r = t.contents.get? r := by
  fun_induction Subtree.get? g r t generalizing b l with
  | case1 => rfl
  | case2 b' l' es nw ne sw se hq =>
    obtain ⟨rfl, rfl⟩ := h.bounds_level
    exact (h.get?_own hq).symm
  | case3 b' l' es nw ne sw se q hq ih =>
    obtain ⟨rfl, rfl⟩ := h.bounds_level
    obtain ⟨xs, zs, hx, hz, hs⟩ := h.exists_parts (by simp) hq
    have := hs ((node b' l' es nw ne sw se).child q)
    rw [setChild_child] at this
    rw [ih (h.deeper q), contents, contents, this, Table.get?_parts hx hz]

/-! ## Removal -/

/-- **Removal is exact**: it returns what look-up finds, and of all entries drops those under the rectangle. -/
theorem Placed.remove_toList {t : Subtree V} (h : Placed g b l t) (r : Rect) :
    (t.remove g r).1 = t.contents.get? r ∧ (t.remove g r).2.toList = t.toList.filter fun e => !(e.1 == r) := by
  fun_induction Subtree.remove g r t generalizing b l with
  | case1 => exact ⟨rfl, rfl⟩
  | case2 b' l' es nw ne sw se hq =>
    obtain ⟨rfl, rfl⟩ := h.bounds_level
    refine ⟨(h.get?_own hq).symm, ?_⟩
    have := Table.filter_parts (Table.lacks_nil r) (h.lacks_below hq) es.entries
    rw [List.nil_append, List.nil_append] at this
    rw [toList, toList, this, Table.erase_entries h.distinct]
  | case3 b' l' es nw ne sw se q hq old below hr ih =>
    obtain ⟨rfl, rfl⟩ := h.bounds_level
    obtain ⟨xs, zs, hx, hz, hs⟩ := h.exists_parts (by simp) hq
    have ht := hs ((node b' l' es nw ne sw se).child q)
    rw [setChild_child] at ht
    obtain ⟨ih1, ih2⟩ := ih (h.deeper q)
    rw [hr] at ih1 ih2
    refine ⟨?_, ?_⟩
    · rw [ih1, contents, contents, ht, Table.get?_parts hx hz]
    · rw [hs, toList_pruned, ih2, ht, Table.filter_parts hx hz]

theorem Placed.leaf (g : Region) (b : Box) (l : Nat) : Placed g b l (leaf b l : Subtree V) := by
  refine .present .nil (fun e he => nomatch he) (fun q hq => ?_) (fun q e he => ?_) (fun q => ?_)
  · cases q <;> exact absurd rfl hq
  · cases q <;> cases he
  · cases q <;> exact .absent _ _

theorem Placed.orLeaf {t : Subtree V} (h : Placed g b l t) : Placed g b l (t.orLeaf b l) := by
  unfold Subtree.orLeaf
  split
  · exact .leaf g b l
  · exact h

theorem Placed.pruned {t : Subtree V} (h : Placed g b l t) (drop : Bool) : Placed g b l (t.pruned drop) := by
  unfold Subtree.pruned
  split
  · exact .absent _ _
  · exact h

/-- a quadrant may be exchanged for another that is placed and holds what goes there -/
theorem Placed.setChild {t u : Subtree V} {q : Quadrant} (h : Placed g b l t) (hd : u ≠ vacant → g.canDivide l b = true)
    (hg : ∀ e ∈ u.toList, g.target l b (.ofRect e.1) = some q) (hu : Placed g (b.quadrant q) (l + 1) u) :
    Placed g b l (t.setChild q u) := by
  cases h with
  | absent => exact .absent _ _
  | @present _ _ es nw ne sw se distinct stays divided goes deeper =>
    have hself := child_setChild_self (node b l es nw ne sw se) u q (by simp)
    have hne := fun p (hp : p ≠ q) => child_setChild_of_ne (node b l es nw ne sw se) u hp
    obtain ⟨nw', ne', sw', se', hnode⟩ : ∃ nw' ne' sw' se',
        (node b l es nw ne sw se).setChild q u = node b l es nw' ne' sw' se' := by
      cases q <;> exact ⟨_, _, _, _, rfl⟩
    rw [hnode] at hself hne ⊢
    refine .present distinct stays (fun p hp => ?_) (fun p e he => ?_) (fun p => ?_) <;> by_cases hpq : p = q
    · subst hpq
      exact hd (hself ▸ hp)
    · exact divided p (hne p hpq ▸ hp)
    · subst hpq
      exact hg e (hself ▸ he)
    · exact goes p e (hne p hpq ▸ he)
    · subst hpq
      rw [hself]; exact hu
    · rw [hne p hpq]; exact deeper p

theorem Placed.remove {t : Subtree V} (h : Placed g b l t) (r : Rect) : Placed g b l (t.remove g r).2 := by
  fun_induction Subtree.remove g r t generalizing b l with
  | case1 => exact h
  | case2 b' l' es nw ne sw se hq =>
    cases h with
    | present distinct stays divided goes deeper =>
      exact .present (distinct.erase r) (fun e he => stays e (List.mem_of_mem_eraseP he)) divided goes deeper
  | case3 b' l' es nw ne sw se q hq old below hr ih =>
    obtain ⟨rfl, rfl⟩ := h.bounds_level
    have hb := (h.deeper q).remove_toList r
    have ih := ih (h.deeper q)
    rw [hr] at hb ih
    refine h.setChild (fun _ => Region.canDivide_of_target hq) (fun e he => ?_) (ih.pruned _)
    rw [toList_pruned, hb.2] at he
    exact h.goes q e (List.mem_filter.1 he).1

/-! ## Insertion -/

/-- **Insertion is exact**: it returns what look-up finds, and does to all entries what it does to a table of them, but
for the place of a new one. -/
theorem Placed.insert_toList {t : Subtree V} (h : Placed g b l t) (ht : t ≠ vacant) (r : Rect) (v : V) :
    (t.insert g r v).1 = t.contents.get? r ∧ (t.insert g r v).2.toList ~ (t.contents.insert r v).entries := by
  fun_induction Subtree.insert g r v t generalizing b l with
  | case1 => exact absurd rfl ht
  | case2 b' l' es nw ne sw se hq =>
    obtain ⟨rfl, rfl⟩ := h.bounds_level
    refine ⟨(h.get?_own hq).symm, ?_⟩
    have := Table.insert_parts (Table.lacks_nil r) (h.lacks_below hq) es.entries v
    exact this.symm
  | case3 b' l' es nw ne sw se q hq old below hr ih =>
    obtain ⟨rfl, rfl⟩ := h.bounds_level
    obtain ⟨xs, zs, hx, hz, hs⟩ := h.exists_parts (by simp) hq
    have hc := hs ((node b' l' es nw ne sw se).child q)
    rw [setChild_child] at hc
    obtain ⟨ih1, ih2⟩ := ih (h.deeper q).orLeaf (orLeaf_ne_vacant _ _ _)
    rw [hr, contents, toList_orLeaf] at ih1 ih2
    refine ⟨?_, ?_⟩
    · rw [ih1, contents, hc, Table.get?_parts hx hz]
    · rw [hs, contents, hc]
      calc xs ++ below.toList ++ zs
        _ ~ xs ++ (Table.insert _ r v).entries ++ zs := (ih2.append_left xs).append_right zs
        _ ~ (Table.insert _ r v).entries := (Table.insert_parts hx hz _ v).symm

theorem Placed.insert {t : Subtree V} (h : Placed g b l t) (r : Rect) (v : V) : Placed g b l (t.insert g r v).2 := by
  fun_induction Subtree.insert g r v t generalizing b l with
  | case1 => exact h
  | case2 b' l' es nw ne sw se hq =>
    cases h with
    | present distinct stays divided goes deeper =>
      refine .present (distinct.insert r v) (fun e he => ?_) divided goes deeper
      rcases Table.key_of_mem_insertInto he with hk | ⟨e', he', hk⟩
      · rw [hk]; exact hq
      · rw [← hk]; exact stays e' he'
  | case3 b' l' es nw ne sw se q hq old below hr ih =>
    obtain ⟨rfl, rfl⟩ := h.bounds_level
    have hb := (h.deeper q).orLeaf.insert_toList (orLeaf_ne_vacant _ _ _) r v
    have ih := ih (h.deeper q).orLeaf
    rw [hr] at hb ih
    refine h.setChild (fun _ => Region.canDivide_of_target hq) (fun e he => ?_) ih
    rcases Table.key_of_mem_insertInto (hb.2.mem_iff.1 he) with hk | ⟨e', he', hk⟩
    · rw [hk]; exact hq
    · rw [contents, toList_orLeaf] at he'
      rw [← hk]; exact h.goes q e' he'

theorem insert_ne_vacant {t : Subtree V} (ht : t ≠ vacant) (g : Region) (r : Rect) (v : V) : (t.insert g r v).2 ≠ vacant := by
  unfold Subtree.insert
  split
  · exact ht
  · split
    · simp
    · exact setChild_ne_vacant ht _ _

theorem remove_ne_vacant {t : Subtree V} (ht : t ≠ vacant) (g : Region) (r : Rect) : (t.remove g r).2 ≠ vacant := by
  unfold Subtree.remove
  split
  · exact ht
  · split
    · simp
    · exact setChild_ne_vacant ht _ _

/-! ## Distinct entries -/

/-- **No duplicates**: no two entries of a placed subtree are under equal rectangles. -/
theorem Placed.contents_distinct {t : Subtree V} (h : Placed g b l t) : t.contents.Distinct := by
  induction h with
  | absent => exact .nil
  | @present b l es nw ne sw se distinct stays divided goes deeper ih =>
    have hne : ∀ {p q : Quadrant}, p ≠ q → ∀ e ∈ ((node b l es nw ne sw se).child p).toList,
        ∀ e' ∈ ((node b l es nw ne sw se).child q).toList, (e.1 == e'.1) = false := by
      intro p q hpq e he e' he'
      apply unequal_of_target (g := g) (b := b) (l := l)
      rw [goes p e he, goes q e' he']
      simpa using hpq
    have hown : ∀ q, ∀ e ∈ es.entries, ∀ e' ∈ ((node b l es nw ne sw se).child q).toList, (e.1 == e'.1) = false := by
      intro q e he e' he'
      apply unequal_of_target (g := g) (b := b) (l := l)
      rw [stays e he, goes q e' he']
      simp
    show List.Pairwise _ (es.entries ++ (nw.toList ++ (ne.toList ++ (sw.toList ++ se.toList))))
    simp only [List.pairwise_append, List.mem_append]
    refine ⟨distinct, ⟨ih .nw, ⟨ih .ne, ⟨ih .sw, ih .se, hne (p := .sw) (q := .se) (by decide)⟩, ?_⟩, ?_⟩, ?_⟩
    · intro e he e' he'
      rcases he' with he' | he'
      · exact hne (p := .ne) (q := .sw) (by decide) e he e' he'
      · exact hne (p := .ne) (q := .se) (by decide) e he e' he'
    · intro e he e' he'
      rcases he' with he' | he' | he'
      · exact hne (p := .nw) (q := .ne) (by decide) e he e' he'
      · exact hne (p := .nw) (q := .sw) (by decide) e he e' he'
      · exact hne (p := .nw) (q := .se) (by decide) e he e' he'
    · intro e he e' he'
      rcases he' with he' | he' | he' | he'
      · exact hown .nw e he e' he'
      · exact hown .ne e he e' he'
      · exact hown .sw e he e' he'
      · exact hown .se e he e' he'

end Subtree
end EventMatching
