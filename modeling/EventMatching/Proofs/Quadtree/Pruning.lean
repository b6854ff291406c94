/-
Dropping empty nodes, which no answer shows.

A region says whether a removal drops the nodes that it leaves with nothing in them. `condensed` is a subtree without the
nodes below its top that have no entry at or below them. On a placed subtree, insertion and removal do to the condensed
subtree what they do to the subtree itself, provided that the former drops empty nodes and the latter does not
(`Placed.insert_condensed`, `Placed.remove_condensed`): a node that was dropped is made again just as an empty one would
be, and a removal that finds nothing drops nothing. So trees over regions that differ in this point only stay `Twins` in
every run (`run_twins`), one being the other condensed. Condensing keeps the list of entries and its order
(`toList_condensed`), and no answer of a tree shows more than that (`answers_of_twins`).
-/
import EventMatching.Proofs.Quadtree.Paths

namespace EventMatching

/-- the region, with nodes that hold nothing dropped or kept -/
def Region.pruning (g : Region) (drop : Bool) : Region := { g with prune := drop }

@[simp] theorem Region.target_pruning (g : Region) (drop : Bool) (l : Nat) (b box : Box) :
    (g.pruning drop).target l b box = g.target l b box := rfl

@[simp] theorem Region.bounds_pruning (g : Region) (drop : Bool) : (g.pruning drop).bounds = g.bounds := rfl

@[simp] theorem Region.rect_pruning (g : Region) (drop : Bool) : (g.pruning drop).rect = g.rect := rfl

namespace Subtree

variable {V : Type} {g : Region} {b : Box} {l : Nat}

/-! ## Condensing -/

/-- the place without a subtree that holds no entry -/
def unlessEmpty (t : Subtree V) : Subtree V := if t.isEmpty then vacant else t

/-- the subtree without those below its top that hold no entry -/
def condensed : Subtree V → Subtree V
  | vacant => vacant
  | node b l es nw ne sw se =>
    node b l es nw.condensed.unlessEmpty ne.condensed.unlessEmpty sw.condensed.unlessEmpty se.condensed.unlessEmpty

@[simp] theorem unlessEmpty_vacant : (vacant : Subtree V).unlessEmpty = vacant := rfl

@[simp] theorem toList_unlessEmpty (t : Subtree V) : t.unlessEmpty.toList = t.toList := by
  unfold unlessEmpty
  split
  · rename_i h
    exact ((Quadtree.isEmpty_iff t).1 h).symm
  · rfl

/-- condensing keeps the entries, in their order -/
@[simp] theorem toList_condensed (t : Subtree V) : t.condensed.toList = t.toList := by
  induction t with
  | vacant => rfl
  | node b l es nw ne sw se ih1 ih2 ih3 ih4 => simp [condensed, toList, ih1, ih2, ih3, ih4]

@[simp] theorem isEmpty_condensed (t : Subtree V) : t.condensed.isEmpty = t.isEmpty := by
  rw [Bool.eq_iff_iff, Quadtree.isEmpty_iff, Quadtree.isEmpty_iff, toList_condensed]

theorem child_condensed (t : Subtree V) (q : Quadrant) : t.condensed.child q = (t.child q).condensed.unlessEmpty := by
  cases t with
  | vacant => rfl
  | node => cases q <;> rfl

theorem condensed_setChild (t u : Subtree V) (q : Quadrant) :
    (t.setChild q u).condensed = t.condensed.setChild q u.condensed.unlessEmpty := by
  cases t with
  | vacant => rfl
  | node => cases q <;> rfl

theorem unlessEmpty_of_isEmpty {t : Subtree V} (h : t.isEmpty = true) : t.condensed.unlessEmpty = vacant := by
  simp [unlessEmpty, h]

theorem unlessEmpty_of_not_isEmpty {t : Subtree V} (h : t.isEmpty = false) : t.condensed.unlessEmpty = t.condensed := by
  simp [unlessEmpty, h]

/-- a place is vacant in the condensed subtree just if no entry is at or below it -/
theorem isVacant_unlessEmpty (t : Subtree V) : t.condensed.unlessEmpty.isVacant = t.isEmpty := by
  cases h : t.isEmpty with
  | true =>
    rw [unlessEmpty_of_isEmpty h]
    rfl
  | false =>
    rw [unlessEmpty_of_not_isEmpty h]
    cases t with
    | vacant => cases h
    | node => rfl

/-- a condensed node that holds nothing itself and has no child is one with no entry below it either -/
theorem isBare_condensed (t : Subtree V) : t.condensed.isBare = t.isEmpty := by
  cases t with
  | vacant => rfl
  | node b l es nw ne sw se => simp only [condensed, isBare, isEmpty, isVacant_unlessEmpty]

/-- dropping a bare node is all that condensing asks for after a removal -/
theorem pruned_condensed (t : Subtree V) : t.condensed.pruned true = t.condensed.unlessEmpty := by
  rw [pruned, unlessEmpty, Bool.true_and, isBare_condensed, isEmpty_condensed]

/-- a node that is there and holds no entry is condensed to the one that would be made in its place -/
theorem Placed.condensed_orLeaf {t : Subtree V} (h : Placed g b l t) :
    (t.orLeaf b l).condensed = t.condensed.unlessEmpty.orLeaf b l := by
  cases t with
  | vacant => rfl
  | node b' l' es nw ne sw se =>
    obtain ⟨rfl, rfl⟩ := h.bounds_level
    cases hempty : (node b' l' es nw ne sw se).isEmpty with
    | false =>
      rw [unlessEmpty_of_not_isEmpty hempty]
      rfl
    | true =>
      rw [unlessEmpty_of_isEmpty hempty]
      simp only [isEmpty, Bool.and_eq_true, Table.isEmpty, List.isEmpty_iff] at hempty
      obtain ⟨⟨⟨⟨hes, hnw⟩, hne⟩, hsw⟩, hse⟩ := hempty
      have hes : es = .empty := by
        cases es
        exact congrArg Table.mk hes
      show condensed (node b' l' es nw ne sw se) = Subtree.leaf b' l'
      rw [condensed, unlessEmpty_of_isEmpty hnw, unlessEmpty_of_isEmpty hne, unlessEmpty_of_isEmpty hsw,
        unlessEmpty_of_isEmpty hse, hes]
      rfl

/-! ## One call -/

theorem top_condensed (t : Subtree V) : t.condensed.top = t.top := by
  cases t <;> rfl

/-- an insertion that goes on to a quadrant -/
theorem insert_goes {t : Subtree V} {n : Node V} (ht : t.top = some n) {r : Rect} {q : Quadrant}
    (hq : g.target n.level n.bounds (.ofRect r) = some q) (v : V) :
    t.insert g r v =
      let below := ((t.child q).orLeaf (n.bounds.quadrant q) (n.level + 1)).insert g r v
      (below.1, t.setChild q below.2) := by
  obtain ⟨nw, ne, sw, se, rfl⟩ := top_eq_some ht
  rw [Subtree.insert]
  split
  · rename_i hstays
    rw [hq] at hstays
    cases hstays
  · rename_i p hgoes
    rw [hq] at hgoes
    obtain rfl := Option.some.inj hgoes
    rfl

/-- a removal that goes on to a quadrant -/
theorem remove_goes {t : Subtree V} {n : Node V} (ht : t.top = some n) {r : Rect} {q : Quadrant}
    (hq : g.target n.level n.bounds (.ofRect r) = some q) :
    t.remove g r =
      let below := (t.child q).remove g r
      (below.1, t.setChild q (below.2.pruned (below.1.isSome && g.prune))) := by
  obtain ⟨nw, ne, sw, se, rfl⟩ := top_eq_some ht
  rw [Subtree.remove]
  split
  · rename_i hstays
    rw [hq] at hstays
    cases hstays
  · rename_i p hgoes
    rw [hq] at hgoes
    obtain rfl := Option.some.inj hgoes
    rfl

/-- after an insertion there is an entry -/
theorem Placed.isEmpty_insert {t : Subtree V} (h : Placed g b l t) (ht : t ≠ vacant) (r : Rect) (v : V) :
    (t.insert g r v).2.isEmpty = false := by
  rw [← Bool.not_eq_true, Quadtree.isEmpty_iff]
  intro hnil
  have hperm := (h.insert_toList ht r v).2.trans (Table.insert_perm h.contents_distinct r v)
  rw [hnil] at hperm
  exact List.not_perm_nil_cons _ _ hperm

/-- **Insertion does not see dropped nodes.** -/
theorem Placed.insert_condensed {t : Subtree V} (h : Placed g b l t) (ht : t ≠ vacant) (drop : Bool) (r : Rect) (v : V) :
    t.condensed.insert (g.pruning drop) r v = ((t.insert g r v).1, (t.insert g r v).2.condensed) := by
  fun_induction Subtree.insert g r v t generalizing b l with
  | case1 => exact absurd rfl ht
  | case2 b' l' es nw ne sw se hq =>
    rw [condensed, Subtree.insert]
    split
    · rfl
    · rename_i p hgoes
      rw [Region.target_pruning, hq] at hgoes
      cases hgoes
  | case3 b' l' es nw ne sw se q hq old below hr ih =>
    obtain ⟨rfl, rfl⟩ := h.bounds_level
    have hplaced := (h.deeper q).orLeaf
    have hbelow := ih hplaced (orLeaf_ne_vacant _ _ _)
    have hentry := hplaced.isEmpty_insert (orLeaf_ne_vacant _ _ _) r v
    rw [(h.deeper q).condensed_orLeaf, hr] at hbelow
    rw [hr] at hentry
    have hgoes := insert_goes (g := g.pruning drop) (top_condensed (node b' l' es nw ne sw se)) hq v
    rw [hgoes, child_condensed]
    simp only [hbelow, condensed_setChild, unlessEmpty_of_not_isEmpty hentry]

/-- a removal in a quadrant, which may be vacant in the condensed subtree, and the dropping after it -/
theorem Placed.remove_quadrant {t below : Subtree V} (h : Placed g b l t) {r : Rect} {old : Option V}
    (hr : t.remove g r = (old, below)) (hcondensed : t.condensed.remove (g.pruning true) r = (old, below.condensed)) :
    ∃ u, t.condensed.unlessEmpty.remove (g.pruning true) r = (old, u) ∧
      u.pruned old.isSome = below.condensed.unlessEmpty := by
  obtain ⟨hold, hlist⟩ := h.remove_toList r
  simp only [hr] at hold hlist
  cases hempty : t.isEmpty with
  | true =>
    -- there is nothing to remove on either side
    have hnil := (Quadtree.isEmpty_iff t).1 hempty
    have hnone : old = none := by
      rw [hold, contents, hnil]
      rfl
    have hbelow : below.isEmpty = true := by
      rw [Quadtree.isEmpty_iff, hlist, hnil]
      rfl
    refine ⟨vacant, ?_, ?_⟩
    · rw [unlessEmpty_of_isEmpty hempty, Subtree.remove, hnone]
    · rw [unlessEmpty_of_isEmpty hbelow, hnone]
      rfl
  | false =>
    rw [unlessEmpty_of_not_isEmpty hempty]
    refine ⟨below.condensed, hcondensed, ?_⟩
    cases old with
    | some v => exact pruned_condensed below
    | none =>
      -- a removal that finds nothing leaves all entries where they are
      have hlacks : Table.Lacks t.toList r := Table.get?_eq_none_iff.1 hold.symm
      have hbelow : below.isEmpty = false := by
        rw [← Bool.not_eq_true, Quadtree.isEmpty_iff, hlist, hlacks.filter_not, ← Quadtree.isEmpty_iff, hempty]
        exact Bool.false_ne_true
      rw [unlessEmpty_of_not_isEmpty hbelow]
      rfl

/-- **A removal that drops the nodes it empties leaves the condensed subtree** of what one leaves that keeps them. -/
theorem Placed.remove_condensed {t : Subtree V} (h : Placed g b l t) (hg : g.prune = false) (r : Rect) :
    t.condensed.remove (g.pruning true) r = ((t.remove g r).1, (t.remove g r).2.condensed) := by
  fun_induction Subtree.remove g r t generalizing b l with
  | case1 =>
    rw [condensed, Subtree.remove]
  | case2 b' l' es nw ne sw se hq =>
    rw [condensed, Subtree.remove]
    split
    · rfl
    · rename_i p hgoes
      rw [Region.target_pruning, hq] at hgoes
      cases hgoes
  | case3 b' l' es nw ne sw se q hq old below hr ih =>
    obtain ⟨rfl, rfl⟩ := h.bounds_level
    have hbelow := ih (h.deeper q)
    rw [hr] at hbelow
    obtain ⟨u, hu, hpruned⟩ := (h.deeper q).remove_quadrant hr hbelow
    have hgoes := remove_goes (g := g.pruning true) (top_condensed (node b' l' es nw ne sw se)) hq
    have hkept : below.pruned (old.isSome && g.prune) = below := by
      rw [hg, Bool.and_false]
      rfl
    have hdropped : u.pruned (old.isSome && (g.pruning true).prune) = below.condensed.unlessEmpty := by
      rw [show (g.pruning true).prune = true from rfl, Bool.and_true, hpruned]
    rw [hgoes, child_condensed, hkept, condensed_setChild]
    simp only [hu, hdropped]

/-! ## Paths -/

/-- below an empty subtree all is empty -/
theorem isEmpty_follow {t : Subtree V} (h : t.isEmpty = true) (path : List Quadrant) : (t.follow path).isEmpty = true := by
  rw [Quadtree.isEmpty_iff] at h ⊢
  apply List.eq_nil_iff_forall_not_mem.2
  intro e he
  have hmem := mem_toList_of_follow he
  rw [h] at hmem
  cases hmem

/-- **The nodes of a condensed subtree** are its top and those with an entry at or below them, as they were. -/
theorem nodeAt_condensed (t : Subtree V) (path : List Quadrant) :
    t.condensed.nodeAt path = if path = [] ∨ (t.follow path).isEmpty = false then t.nodeAt path else none := by
  induction path generalizing t with
  | nil =>
    rw [if_pos (.inl rfl)]
    exact top_condensed t
  | cons q path ih =>
    have hstep : t.condensed.nodeAt (q :: path) = (t.child q).condensed.unlessEmpty.nodeAt path := by
      rw [← child_condensed]
      rfl
    have hfollow : t.follow (q :: path) = (t.child q).follow path := rfl
    rw [hstep, hfollow]
    cases hempty : (t.child q).isEmpty with
    | true =>
      rw [unlessEmpty_of_isEmpty hempty, isEmpty_follow hempty path, nodeAt, follow_vacant, if_neg (by simp)]
      rfl
    | false =>
      rw [unlessEmpty_of_not_isEmpty hempty, ih (t.child q)]
      have hiff : (path = [] ∨ ((t.child q).follow path).isEmpty = false) ↔
          (q :: path = [] ∨ ((t.child q).follow path).isEmpty = false) := by
        constructor
        · rintro (rfl | hsome)
          · exact .inr hempty
          · exact .inr hsome
        · rintro (hnil | hsome)
          · cases hnil
          · exact .inr hsome
      exact ite_congr (propext hiff) (fun _ => rfl) (fun _ => rfl)

end Subtree

namespace Quadtree

variable {V : Type} {g : Region} {t u : Quadtree V}

open Subtree

/-! ## Runs -/

/-- the trees over the region that drops empty nodes and the one that keeps them, the first being the second condensed -/
structure Twins (g : Region) (t u : Quadtree V) : Prop where
  dropping : t.region = g.pruning true
  keeping : u.region = g.pruning false
  sound : t.Sound
  sound' : u.Sound
  root : t.root = u.root.condensed

theorem empty_twins (g : Region) : Twins g (empty (g.pruning true) : Quadtree V) (empty (g.pruning false)) :=
  ⟨rfl, rfl, sound_empty _, sound_empty _, rfl⟩

/-- twins hold the same entries in the same order -/
theorem Twins.toList_eq (h : Twins g t u) : t.root.toList = u.root.toList := by
  rw [h.root, toList_condensed]

theorem Twins.contents_eq (h : Twins g t u) : t.root.contents = u.root.contents := congrArg Table.mk h.toList_eq

/-- twins take the same rectangles -/
theorem Twins.covers_eq (h : Twins g t u) (r : Rect) : t.covers r = u.covers r := by
  rw [covers, covers, h.dropping, h.keeping, Region.bounds_pruning, Region.bounds_pruning]

theorem Twins.accepts_eq (h : Twins g t u) (r : Rect) : accepts t.region r = accepts u.region r :=
  congrArg (r.isValid && ·) (h.covers_eq r)

theorem Twins.insert (h : Twins g t u) {r : Rect} (v : V) (hr : accepts t.region r = true) :
    Twins g { t with root := (t.root.insert t.region r v).2 } { u with root := (u.root.insert u.region r v).2 } where
  dropping := h.dropping
  keeping := h.keeping
  sound := h.sound.insert v hr
  sound' := h.sound'.insert v (h.accepts_eq r ▸ hr)
  root := by
    have hplaced := h.sound'.placed
    have hinsert := hplaced.insert_condensed h.sound'.rooted true r v
    simp only [h.dropping, h.root]
    rw [h.keeping] at hinsert ⊢
    exact congrArg Prod.snd hinsert

theorem Twins.remove (h : Twins g t u) (r : Rect) : Twins g (t.remove r).2 (u.remove r).2 := by
  have hregion : ∀ (s : Quadtree V), (s.remove r).2.region = s.region := by
    intro s
    unfold Quadtree.remove
    split <;> rfl
  refine ⟨(hregion t).trans h.dropping, (hregion u).trans h.keeping, h.sound.remove r, h.sound'.remove r, ?_⟩
  unfold Quadtree.remove
  rw [h.covers_eq]
  split
  · have hremove := h.sound'.placed.remove_condensed (by rw [h.keeping]; rfl) r
    simp only [h.dropping, h.root]
    rw [h.keeping] at hremove ⊢
    exact congrArg Prod.snd hremove
  · exact h.root

/-- **Every call keeps twins.** -/
theorem step_twins (h : Twins g t u) (o : Op V) : Twins g (t.step o) (u.step o) := by
  cases o with
  | insert r v =>
    rw [step_insert t h.sound, step_insert u h.sound', h.accepts_eq]
    split
    · rename_i hr
      exact h.insert v ((h.accepts_eq r).trans hr)
    · exact h
  | remove r => exact h.remove r

theorem run_twins (h : Twins g t u) (ops : List (Op V)) : Twins g (t.run ops) (u.run ops) := by
  induction ops generalizing t u with
  | nil => exact h
  | cons o ops ih => exact ih (step_twins h o)

/-! ## Answers -/

/-- **Twins answer alike.** -/
theorem Twins.answers_eq (h : Twins g t u) :
    (∀ r v, (t.insert r v).map Prod.fst = (u.insert r v).map Prod.fst) ∧ (∀ r, (t.remove r).1 = (u.remove r).1) ∧
      (∀ r, t.get? r = u.get? r) ∧ t.count = u.count ∧ t.isEmpty = u.isEmpty := by
  refine ⟨?_, ?_, ?_, ?_, ?_⟩
  · intro r v
    rw [insert_eq t h.sound, insert_eq u h.sound', h.covers_eq, h.contents_eq, h.dropping, h.keeping]
    split
    · rfl
    · split <;> rfl
  · intro r
    rw [(t.remove_eq h.sound r).1, (u.remove_eq h.sound' r).1, h.contents_eq]
  · intro r
    rw [h.sound.get?_eq, h.sound'.get?_eq, h.contents_eq]
  · show t.root.count = u.root.count
    rw [count_eq, count_eq, h.toList_eq]
  · show t.root.isEmpty = u.root.isEmpty
    rw [h.root, isEmpty_condensed]

theorem Twins.collect_eq (h : Twins g t u) {m : Type → Type} [Monad m] [LawfulMonad m] (query : Rect)
    (f : Rect → V → m Unit) : t.collect query f = u.collect query f := by
  rw [h.sound.collect_eq, h.sound'.collect_eq, h.toList_eq]

/-! ## Main result -/

/-- **Dropping empty nodes is not observable.** Of two new trees over regions that differ only in whether empty nodes are
dropped, after the same calls: the tree that drops them is the other without the subtrees below its root that hold no
entry, so by the paths to them its nodes are the root and those of the other with an entry at or below them, each as it
is there. Both answer every further call alike, with values and with errors, and run a callback on the same entries in
the same order, in any monad, for every query. -/
theorem answers_of_twins {t₀ u₀ : Quadtree V} (h : new (g.pruning true) = .ok t₀) (h' : new (g.pruning false) = .ok u₀)
    (ops : List (Op V)) :
    let t := t₀.run ops
    let u := u₀.run ops
    t.root = u.root.condensed ∧
    (∀ path, t.root.nodeAt path =
      if path = [] ∨ (u.root.follow path).isEmpty = false then u.root.nodeAt path else none) ∧
    ((∀ r v, (t.insert r v).map Prod.fst = (u.insert r v).map Prod.fst) ∧ (∀ r, (t.remove r).1 = (u.remove r).1) ∧
      (∀ r, t.get? r = u.get? r) ∧ t.count = u.count ∧ t.isEmpty = u.isEmpty) ∧
    (∀ query, t.shown query = u.shown query) ∧
    ∀ {m : Type → Type} [Monad m] [LawfulMonad m] (query : Rect) (f : Rect → V → m Unit),
      t.collect query f = u.collect query f := by
  intro t u
  have htwins : Twins g t u := by
    rw [show t = (empty (g.pruning true)).run ops by rw [← new_eq_ok h],
      show u = (empty (g.pruning false)).run ops by rw [← new_eq_ok h']]
    exact run_twins (empty_twins g) ops
  refine ⟨htwins.root, ?_, htwins.answers_eq, ?_, htwins.collect_eq⟩
  · intro path
    rw [htwins.root]
    exact nodeAt_condensed u.root path
  · intro query
    rw [htwins.sound.shown_eq, htwins.sound'.shown_eq, htwins.toList_eq]

/-- the square of size 30 from (n, n), which crosses the middle of the quadrant that it lies in -/
def block (n : Int) : Rect := ⟨.ofInt n, .ofInt n, .ofInt 30, .ofInt 30⟩

/-- one entry comes and goes in a quadrant, and one stays in another -/
def comingAndGoing : List (Op Nat) := [.insert (block 10) 1, .insert (block 60) 2, .remove (block 10)]

/-- a tree that drops nodes has fewer of them, and answers alike -/
theorem answers_on_pruned_square :
    new (square.pruning true) = .ok (empty (square.pruning true) : Quadtree Nat) ∧
      new (square.pruning false) = .ok (empty (square.pruning false) : Quadtree Nat) ∧
      let t := (empty (square.pruning true)).run comingAndGoing
      let u := (empty (square.pruning false)).run comingAndGoing
      t.nodeCount < u.nodeCount ∧ t.root = u.root.condensed ∧ t.shown square.rect = [(block 60, 2)] ∧
        u.shown square.rect = [(block 60, 2)] := by
  have h : new (square.pruning true) = .ok (empty (square.pruning true) : Quadtree Nat) :=
    new_of_validate (by decide +kernel)
  have h' : new (square.pruning false) = .ok (empty (square.pruning false) : Quadtree Nat) :=
    new_of_validate (by decide +kernel)
  obtain ⟨hroot, -, -, hshown, -⟩ := answers_of_twins h h' comingAndGoing
  have hdropping : ((empty (square.pruning true)).run comingAndGoing).shown square.rect = [(block 60, 2)] := by
    decide +kernel
  exact ⟨h, h', by decide +kernel, hroot, hdropping, (hshown _).symm.trans hdropping⟩

end Quadtree
end EventMatching
