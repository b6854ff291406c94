/-
What one call changes in a quadtree.

`mapTables` changes the tables of a subtree and leaves its nodes as they are. A removal that finds nothing changes
nothing at all (`remove_of_none`). On a placed subtree, only the table at the end of a rectangle's way has anything to do
with the rectangle (`Placed.mapTables_stays`, `Placed.mapTables_goes`). So an insertion that finds the rectangle overwrites
one value (`Placed.insert_of_some`), and a removal that drops no nodes erases one entry (`Placed.remove_of_kept`), with
all nodes as they were; one that drops nodes leaves the condensed tree of that. The main result is `effect_of_call`.
-/
import EventMatching.Proofs.Quadtree.Shape

namespace EventMatching

namespace Subtree

variable {V : Type} {g : Region} {b : Box} {l : Nat} {r : Rect}

/-! ## Changing tables -/

/-- the subtree with every table changed in one way; bounds, levels and places are as they were -/
def mapTables (f : Table Rect V → Table Rect V) : Subtree V → Subtree V
  | vacant => vacant
  | node b l es nw ne sw se => node b l (f es) (nw.mapTables f) (ne.mapTables f) (sw.mapTables f) (se.mapTables f)

theorem child_mapTables (f : Table Rect V → Table Rect V) (t : Subtree V) (q : Quadrant) :
    (t.mapTables f).child q = (t.child q).mapTables f := by
  cases t with
  | vacant => rfl
  | node => cases q <;> rfl

/-- overwriting a value in all tables overwrites it in the list of entries -/
theorem toList_overwrite (t : Subtree V) (r : Rect) (v : V) :
    (t.mapTables (·.overwrite r v)).toList = (t.contents.overwrite r v).entries := by
  induction t with
  | vacant => rfl
  | node b l es nw ne sw se ih1 ih2 ih3 ih4 =>
    simp only [contents, Table.overwrite] at ih1 ih2 ih3 ih4 ⊢
    simp only [mapTables, toList, List.map_append, ih1, ih2, ih3, ih4]

/-- a change of tables that concerns one rectangle leaves tables without it as they are -/
def Concerns (f : Table Rect V → Table Rect V) (r : Rect) : Prop := ∀ es, Table.Lacks es.entries r → f es = es

theorem concerns_overwrite (r : Rect) (v : V) : Concerns (fun es => es.overwrite r v) r :=
  fun _ h => Table.overwrite_of_lacks h v

theorem concerns_erase (r : Rect) : Concerns (fun es : Table Rect V => es.erase r) r :=
  fun _ h => Table.erase_of_lacks h

variable {f : Table Rect V → Table Rect V}

theorem mapTables_of_lacks (hf : Concerns f r) {t : Subtree V} (h : Table.Lacks t.toList r) : t.mapTables f = t := by
  induction t with
  | vacant => rfl
  | node b l es nw ne sw se ih1 ih2 ih3 ih4 =>
    simp only [Table.Lacks, toList, List.mem_append, or_imp, forall_and] at h ih1 ih2 ih3 ih4
    obtain ⟨h0, h1, h2, h3, h4⟩ := h
    rw [mapTables, hf es h0, ih1 h1, ih2 h2, ih3 h3, ih4 h4]

/-- where a rectangle stays, a change that concerns it is one to the table of the node -/
theorem Placed.mapTables_stays (hf : Concerns f r) {es : Table Rect V} {nw ne sw se : Subtree V}
    (h : Placed g b l (node b l es nw ne sw se)) (hq : g.target l b (.ofRect r) = none) :
    (node b l es nw ne sw se).mapTables f = node b l (f es) nw ne sw se := by
  have hbelow := h.lacks_below hq
  simp only [Table.Lacks, List.mem_append, or_imp, forall_and] at hbelow
  obtain ⟨h1, h2, h3, h4⟩ := hbelow
  rw [mapTables, mapTables_of_lacks hf h1, mapTables_of_lacks hf h2, mapTables_of_lacks hf h3, mapTables_of_lacks hf h4]

/-- two places are the same if they hold the same node and have the same places below it -/
theorem ext_children {t u : Subtree V} (htop : t.top = u.top) (hchild : ∀ q, t.child q = u.child q) : t = u := by
  cases t with
  | vacant =>
    cases u with
    | vacant => rfl
    | node => cases htop
  | node b l es nw ne sw se =>
    cases u with
    | vacant => cases htop
    | node =>
      cases htop
      cases hchild .nw
      cases hchild .ne
      cases hchild .sw
      cases hchild .se
      rfl

/-- where a rectangle goes on to a quadrant, a change that concerns it is one to that quadrant -/
theorem Placed.mapTables_goes (hf : Concerns f r) {es : Table Rect V} {nw ne sw se : Subtree V} {q : Quadrant}
    (h : Placed g b l (node b l es nw ne sw se)) (hq : g.target l b (.ofRect r) = some q) :
    (node b l es nw ne sw se).mapTables f =
      (node b l es nw ne sw se).setChild q (((node b l es nw ne sw se).child q).mapTables f) := by
  apply ext_children
  · have hown : f es = es := hf es fun e he => unequal_of_target (by rw [h.stays e he, hq]; simp)
    rw [top_setChild, mapTables, hown]
    rfl
  · intro p
    rw [child_mapTables]
    by_cases hpq : p = q
    · subst hpq
      rw [child_setChild_self _ _ _ (by simp)]
    · rw [child_setChild_of_ne _ _ hpq]
      exact mapTables_of_lacks hf fun e he => unequal_of_target (by rw [h.goes p e he, hq]; simpa using hpq)

/-! ## One call -/

/-- **A removal that finds nothing changes nothing**, and drops no node on its way. -/
theorem remove_of_none {t : Subtree V} (h : (t.remove g r).1 = none) : (t.remove g r).2 = t := by
  fun_induction Subtree.remove g r t with
  | case1 => rfl
  | case2 b l es nw ne sw se hq => rw [Table.erase_of_lacks (Table.get?_eq_none_iff.1 h)]
  | case3 b l es nw ne sw se q hq old below hr ih =>
    obtain rfl : old = none := h
    rw [hr] at ih
    have hbelow : below = (node b l es nw ne sw se).child q := ih rfl
    have hkept : below.pruned ((none : Option V).isSome && g.prune) = below := rfl
    rw [hkept, hbelow, setChild_child]

/-- **An insertion that finds the rectangle overwrites its value**, and makes no node. -/
theorem Placed.insert_of_some {t : Subtree V} (h : Placed g b l t) {v old : V} (hold : (t.insert g r v).1 = some old) :
    (t.insert g r v).2 = t.mapTables (·.overwrite r v) := by
  fun_induction Subtree.insert g r v t generalizing b l with
  | case1 => rfl
  | case2 b' l' es nw ne sw se hq =>
    obtain ⟨rfl, rfl⟩ := h.bounds_level
    have hheld : ¬Table.Lacks es.entries r := by
      have hold : es.get? r = some old := hold
      rw [← Table.get?_eq_none_iff, hold]
      simp
    rw [h.mapTables_stays (concerns_overwrite r v) hq, Table.insert_of_held h.distinct hheld]
  | case3 b' l' es nw ne sw se q hq old' below hr ih =>
    obtain ⟨rfl, rfl⟩ := h.bounds_level
    obtain rfl : old' = some old := hold
    have hdeeper := h.deeper q
    have hfound := (hdeeper.orLeaf.insert_toList (orLeaf_ne_vacant _ _ _) r v).1
    have ih := ih hdeeper.orLeaf
    rw [hr] at hfound ih
    -- the entry is below the quadrant, so there is a node to go on to
    have hthere : (node b' l' es nw ne sw se).child q ≠ vacant := by
      intro hv
      rw [hv, contents, toList_orLeaf] at hfound
      cases hfound
    have hbelow := ih rfl
    rw [orLeaf_of_ne_vacant hthere] at hbelow
    rw [h.mapTables_goes (concerns_overwrite r v) hq, ← hbelow]

/-- **A removal that drops no nodes erases its entry**, and leaves all nodes as they are. -/
theorem Placed.remove_of_kept {t : Subtree V} (h : Placed g b l t) (hg : g.prune = false) :
    (t.remove g r).2 = t.mapTables (·.erase r) := by
  fun_induction Subtree.remove g r t generalizing b l with
  | case1 => rfl
  | case2 b' l' es nw ne sw se hq =>
    obtain ⟨rfl, rfl⟩ := h.bounds_level
    rw [h.mapTables_stays (concerns_erase r) hq]
  | case3 b' l' es nw ne sw se q hq old below hr ih =>
    obtain ⟨rfl, rfl⟩ := h.bounds_level
    have hbelow : below = ((node b' l' es nw ne sw se).child q).mapTables (·.erase r) := by
      rw [← ih (h.deeper q), hr]
    have hkept : below.pruned (old.isSome && g.prune) = below := by
      rw [hg, Bool.and_false]
      rfl
    rw [hkept, hbelow, h.mapTables_goes (concerns_erase r) hq]

/-- whether empty nodes are dropped does not matter to where things stand -/
theorem Placed.pruning {t : Subtree V} (h : Placed g b l t) (drop : Bool) : Placed (g.pruning drop) b l t := by
  induction h with
  | absent b l => exact .absent b l
  | present distinct stays divided goes deeper ih => exact .present distinct stays divided goes ih

/-- **A removal that drops nodes erases its entry**, and drops those that have no entry at or below them then. -/
theorem Placed.remove_of_dropped {t : Subtree V} (h : Placed g b l t) (hg : g.prune = true) (hc : t.Condensed) :
    (t.remove g r).2 = (t.mapTables (·.erase r)).condensed := by
  have hself : (g.pruning false).pruning true = g := by rw [Region.pruning, Region.pruning, ← hg]
  have hremove := (h.pruning false).remove_condensed rfl r
  rw [hself, hc] at hremove
  rw [hremove, (h.pruning false).remove_of_kept rfl]

end Subtree

namespace Quadtree

variable {V : Type}

open Subtree

/-- a removal that finds nothing leaves the tree as it is -/
theorem remove_of_none {t : Quadtree V} {r : Rect} (h : (t.remove r).1 = none) : (t.remove r).2 = t := by
  unfold Quadtree.remove at h ⊢
  split
  · rename_i hr
    rw [if_pos hr] at h
    show { t with root := (t.root.remove t.region r).2 } = t
    rw [Subtree.remove_of_none h]
  · rfl

/-- an insertion that succeeds is one of a valid rectangle into the root, and returns what was there -/
theorem Sound.insert_of_ok {t t' : Quadtree V} (h : t.Sound) {r : Rect} {v : V} {old : Option V}
    (hi : t.insert r v = .ok (old, t')) :
    r.isValid = true ∧ t.root.contents.get? r = old ∧ t' = { t with root := (t.root.insert t.region r v).2 } := by
  rw [insert_eq t h] at hi
  split at hi
  · cases hi
  · rename_i hvalid
    split at hi
    · cases hi
    · obtain ⟨hfound, rfl⟩ := Prod.mk.inj (Except.ok.inj hi)
      exact ⟨by simpa using hvalid, hfound, rfl⟩

/-- an insertion that returns a value found it under the rectangle, and put the new value over it -/
theorem Sound.insert_of_some {t t' : Quadtree V} (h : t.Sound) {r : Rect} {v old : V}
    (hi : t.insert r v = .ok (some old, t')) :
    t.root.contents.get? r = some old ∧ t' = { t with root := t.root.mapTables (·.overwrite r v) } := by
  obtain ⟨-, hfound, rfl⟩ := h.insert_of_ok hi
  have hold : (t.root.insert t.region r v).1 = some old := by
    rw [(h.placed.insert_toList h.rooted r v).1, hfound]
  rw [h.placed.insert_of_some hold]
  exact ⟨hfound, rfl⟩

/-- a removal that returns a value found it under the rectangle, and took its entry out of the tree -/
theorem Sound.remove_of_some {t t' : Quadtree V} (h : t.Sound) {r : Rect} {old : V} (hr : t.remove r = (some old, t')) :
    t.root.contents.get? r = some old ∧ t'.root.toList = (t.root.toList.filter fun e => !(e.1 == r)) ∧
      t' = { t with root := (t.root.remove t.region r).2 } := by
  obtain ⟨hfound, -, hlist⟩ := t.remove_eq h r
  simp only [hr] at hfound hlist
  refine ⟨hfound.symm, hlist, ?_⟩
  have hcovers : t.covers r = true := by
    cases hc : t.covers r with
    | true => rfl
    | false =>
      have hnone : t.root.contents.get? r = none := Table.get?_eq_none_iff.2 (h.lacks hc)
      rw [hnone] at hfound
      cases hfound
  rw [Quadtree.remove, if_pos hcovers] at hr
  exact (Prod.mk.inj hr).2.symm

/-! ## Main result -/

/-- **What a call changes.** After any calls on a new tree, whether empty nodes are dropped or kept:

- an insertion that fails and a removal that returns nothing leave the very same tree;
- an insertion that returns a value puts the new one in its place, under the rectangle that was there, and changes nothing
  else: the list of entries is the same before and behind it, and the tree is the same but for the tables of its nodes;
- a removal that returns a value takes that entry out of the list and leaves what is before and behind it; if empty nodes
  are kept, the tree is the same but for the tables of its nodes; if they are dropped, it is that tree condensed. -/
theorem effect_of_call {g : Region} {t₀ : Quadtree V} (h : new g = .ok t₀) (ops : List (Op V)) :
    let t := t₀.run ops
    (∀ r v e, t.insert r v = .error e → t.step (.insert r v) = t) ∧
    (∀ r, (t.remove r).1 = none → (t.remove r).2 = t) ∧
    (∀ r v old t', t.insert r v = .ok (some old, t') →
      t' = { t with root := t.root.mapTables (·.overwrite r v) } ∧
      ∃ xs k zs, (k == r) = true ∧ t.root.toList = xs ++ (k, old) :: zs ∧ t'.root.toList = xs ++ (k, v) :: zs) ∧
    ∀ r old t', t.remove r = (some old, t') →
      (∃ xs k zs, (k == r) = true ∧ t.root.toList = xs ++ (k, old) :: zs ∧ t'.root.toList = xs ++ zs) ∧
      (g.prune = false → t' = { t with root := t.root.mapTables (·.erase r) }) ∧
      (g.prune = true → t' = { t with root := (t.root.mapTables (·.erase r)).condensed }) := by
  intro t
  obtain rfl := new_eq_ok h
  have hagrees : Agrees g t (reference g ops) := run_empty_agrees g ops
  have hsound := hagrees.sound
  have hdistinct := hsound.placed.contents_distinct
  refine ⟨?_, fun r => remove_of_none, ?_, ?_⟩
  · intro r v e he
    rw [step, he]
  · intro r v old t' hi
    obtain ⟨hfound, rfl⟩ := hsound.insert_of_some hi
    obtain ⟨xs, k, zs, hsplit, hk, hxs, hzs⟩ := Table.exists_split hdistinct hfound
    refine ⟨rfl, xs, k, zs, hk, hsplit, ?_⟩
    rw [toList_overwrite, Table.overwrite_split hsplit hk hxs hzs]
  · intro r old t' hr
    obtain ⟨hfound, hlist, ht'⟩ := hsound.remove_of_some hr
    obtain ⟨xs, k, zs, hsplit, hk, hxs, hzs⟩ := Table.exists_split hdistinct hfound
    have hsplit : t.root.toList = xs ++ (k, old) :: zs := hsplit
    refine ⟨⟨xs, k, zs, hk, hsplit, ?_⟩, ?_, ?_⟩
    · rw [hlist, hsplit, List.filter_append, List.filter_cons_of_neg (by simp [hk]), hxs.filter_not, hzs.filter_not]
    · intro hg
      rw [ht', hsound.placed.remove_of_kept (by rw [hagrees.region, hg])]
    · intro hg
      rw [ht', hsound.placed.remove_of_dropped (by rw [hagrees.region, hg]) (run_condensed hg ops)]

/-- a removal that misses drops no node, an upsert makes none, and a removal that hits drops what it empties -/
theorem effect_on_square :
    new square = .ok (empty square : Quadtree Nat) ∧
      let t := (empty square).run comingAndGoing
      (t.remove (block 10)).2 = t ∧
        (∃ t', t.insert (block 60) 5 = .ok (some 2, t') ∧
          t' = { t with root := t.root.mapTables (·.overwrite (block 60) 5) }) ∧
        ∃ t', t.remove (block 60) = (some 2, t') ∧
          t' = { t with root := (t.root.mapTables (·.erase (block 60))).condensed } ∧ t'.nodeCount < t.nodeCount := by
  have h : new square = .ok (empty square : Quadtree Nat) := new_of_validate (by decide +kernel)
  obtain ⟨-, hmiss, hupsert, hhit⟩ := effect_of_call h comingAndGoing
  have hsound : ((empty square).run comingAndGoing).Sound := (run_empty_agrees square comingAndGoing).sound
  obtain ⟨t', hinsert⟩ : ∃ t', ((empty square).run comingAndGoing).insert (block 60) 5 = .ok (some 2, t') := by
    have hfound : ((empty square).run comingAndGoing).root.contents.get? (block 60) = some 2 := by decide +kernel
    rw [insert_eq _ hsound, hfound, if_neg (by decide +kernel), if_neg (by decide +kernel)]
    exact ⟨_, rfl⟩
  have hremove : ((empty square).run comingAndGoing).remove (block 60) =
      (some 2, ((empty square).run comingAndGoing).step (.remove (block 60))) := by decide +kernel
  obtain ⟨hoverwritten, -⟩ := hupsert _ _ _ _ hinsert
  obtain ⟨-, -, hdropped⟩ := hhit _ _ _ hremove
  exact ⟨h, hmiss _ (by decide +kernel), ⟨_, hinsert, hoverwritten⟩, _, hremove, hdropped rfl, by decide +kernel⟩

end Quadtree
end EventMatching
