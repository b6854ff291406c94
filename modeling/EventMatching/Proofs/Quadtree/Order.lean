/-
In which order collection shows the entries of a quadtree.

The entries are listed node by node, and a node comes before the nodes below it, which come by quadrant
(`toList_eq_flatMap`). Told by paths this is the lexicographic order (`Earlier`). A call dates an entry if it is the last
insertion of the rectangle that found it absent (`Since`), and a tree lists its entries by node and, at one node, by date
(`Dated`). Calls that put no new rectangle in leave the order of what they leave (`Dated.keep`); one that does puts it
behind the entries of its node and before those of all later nodes (`Placed.insert_of_none`, `Dated.enter`). The main
result is `order_of_history`.
-/
import EventMatching.Proofs.Quadtree.Effect
import Mathlib.Data.List.Induction

namespace EventMatching

namespace Region

/-- one path leads to an earlier node than another, where a node comes before the nodes below it, and those in one
quadrant before those in the next -/
def Earlier (path path' : List Quadrant) : Prop := List.Lex (fun p q : Quadrant => p.index < q.index) path path'

theorem Earlier.ne {path path' : List Quadrant} (h : Earlier path path') : path ≠ path' := by
  rintro rfl
  exact List.lex_irrefl (fun q => Nat.lt_irrefl q.index) _ h

end Region

namespace Subtree

open Region

variable {V : Type} {g : Region} {b : Box} {l : Nat} {r : Rect}

/-- the entries are listed node by node, each node before those below it -/
theorem toList_eq_flatMap (t : Subtree V) : t.toList = t.subtrees.flatMap own := by
  induction t with
  | vacant => rfl
  | node b l es nw ne sw se ih1 ih2 ih3 ih4 =>
    simp only [toList, subtrees, List.flatMap_cons, List.flatMap_append, own, ih1, ih2, ih3, ih4]

/-- **The entries at the end of a path** are those whose rectangles have it for their way. -/
theorem Placed.mem_own_follow {t : Subtree V} (h : Placed g b l t) {path : List Quadrant} {e : Rect × V} :
    e ∈ (t.follow path).own ↔ e ∈ t.toList ∧ g.pathFrom l b (.ofRect e.1) = path := by
  induction path generalizing t b l with
  | nil =>
    cases t with
    | vacant => simp [Subtree.follow, own, toList]
    | node b' l' es nw ne sw se =>
      obtain ⟨rfl, rfl⟩ := h.bounds_level
      constructor
      · intro hown
        exact ⟨mem_toList.2 (.inl hown), pathFrom_of_stays (h.stays e hown)⟩
      · rintro ⟨hmem, hpath⟩
        rcases mem_toList.1 hmem with hown | ⟨q, hq⟩
        · exact hown
        · rw [pathFrom_of_goes (h.goes q e hq)] at hpath
          cases hpath
  | cons q path ih =>
    cases t with
    | vacant => simp [follow_vacant, own, toList]
    | node b' l' es nw ne sw se =>
      obtain ⟨rfl, rfl⟩ := h.bounds_level
      rw [Subtree.follow, ih (h.deeper q)]
      constructor
      · rintro ⟨hmem, hpath⟩
        refine ⟨mem_toList.2 (.inr ⟨q, hmem⟩), ?_⟩
        rw [pathFrom_of_goes (h.goes q e hmem), hpath]
      · rintro ⟨hmem, hpath⟩
        rcases mem_toList.1 hmem with hown | ⟨p, hp⟩
        · rw [pathFrom_of_stays (h.stays e hown)] at hpath
          cases hpath
        · rw [pathFrom_of_goes (h.goes p e hp)] at hpath
          obtain ⟨hpq, hrest⟩ := List.cons.inj hpath
          subst hpq
          exact ⟨hp, hrest⟩

/-- **An insertion of an absent rectangle** puts it behind all entries of its node and of earlier ones, and before those of
later ones. -/
theorem Placed.insert_of_none {t : Subtree V} (h : Placed g b l t) (ht : t ≠ vacant) (hnone : Table.Lacks t.toList r)
    (v : V) :
    ∃ xs zs, t.toList = xs ++ zs ∧ (t.insert g r v).2.toList = xs ++ (r, v) :: zs ∧
      (∀ e ∈ xs, Earlier (g.pathFrom l b (.ofRect e.1)) (g.pathFrom l b (.ofRect r)) ∨
        g.pathFrom l b (.ofRect e.1) = g.pathFrom l b (.ofRect r)) ∧
      ∀ e ∈ zs, Earlier (g.pathFrom l b (.ofRect r)) (g.pathFrom l b (.ofRect e.1)) := by
  fun_induction Subtree.insert g r v t generalizing b l with
  | case1 => exact absurd rfl ht
  | case2 b' l' es nw ne sw se hq =>
    obtain ⟨rfl, rfl⟩ := h.bounds_level
    have hown : Table.Lacks es.entries r := fun e he => hnone e (mem_toList.2 (.inl he))
    refine ⟨es.entries, nw.toList ++ (ne.toList ++ (sw.toList ++ se.toList)), rfl, ?_, ?_, ?_⟩
    · rw [toList, Table.insert_of_lacks hown, List.append_assoc]
      rfl
    · intro e he
      rw [pathFrom_of_stays hq, pathFrom_of_stays (h.stays e he)]
      exact .inr rfl
    · intro e he
      obtain ⟨q, hgoes⟩ := (mem_below b' l' es).1 he
      rw [pathFrom_of_stays hq, pathFrom_of_goes (h.goes q e hgoes)]
      exact .nil
  | case3 b' l' es nw ne sw se q hq old below hr ih =>
    obtain ⟨rfl, rfl⟩ := h.bounds_level
    -- below the quadrant the new entry parts the list, and what stands around the quadrant stays around both parts
    obtain ⟨before, behind, hsplit, hbefore, hbehind⟩ := exists_sides (t := node b' l' es nw ne sw se) (by simp) q
    have hlacks : Table.Lacks (((node b' l' es nw ne sw se).child q).orLeaf (b'.quadrant q) (l' + 1)).toList r := by
      rw [toList_orLeaf]
      exact fun e he => hnone e (mem_toList.2 (.inr ⟨q, he⟩))
    obtain ⟨xs, zs, hlist, hinserted, hxs, hzs⟩ := ih (h.deeper q).orLeaf (orLeaf_ne_vacant _ _ _) hlacks
    rw [toList_orLeaf] at hlist
    rw [hr] at hinserted
    have hself := hsplit ((node b' l' es nw ne sw se).child q)
    rw [setChild_child, hlist] at hself
    have hway {e : Rect × V} (he : e ∈ xs ++ zs) : g.pathFrom l' b' (.ofRect e.1) =
        q :: g.pathFrom (l' + 1) (b'.quadrant q) (.ofRect e.1) :=
      pathFrom_of_goes (h.goes q e (hlist ▸ he))
    refine ⟨before ++ xs, zs ++ behind, ?_, ?_, ?_, ?_⟩
    · simp only [hself, List.append_assoc]
    · simp only [hsplit, hinserted, List.append_assoc, List.cons_append]
    · intro e he
      rw [pathFrom_of_goes hq]
      rcases List.mem_append.1 he with he | he
      · left
        rcases hbefore e he with hown | ⟨p, hp, hgoes⟩
        · rw [pathFrom_of_stays (h.stays e hown)]
          exact .nil
        · rw [pathFrom_of_goes (h.goes p e hgoes)]
          exact .rel hp
      · rw [hway (List.mem_append_left _ he)]
        exact (hxs e he).imp .cons (congrArg _)
    · intro e he
      rw [pathFrom_of_goes hq]
      rcases List.mem_append.1 he with he | he
      · rw [hway (List.mem_append_right _ he)]
        exact .cons (hzs e he)
      · obtain ⟨p, hp, hgoes⟩ := hbehind e he
        rw [pathFrom_of_goes (h.goes p e hgoes)]
        exact .rel hp

end Subtree

namespace Quadtree

open Region

variable {V : Type} {g : Region}

/-! ## Dates -/

/-- the call puts a rectangle in: it inserts an equal one, and finds none there -/
def Enters (t : Quadtree V) (o : Op V) (r : Rect) : Prop :=
  ∃ r' v t', o = .insert r' v ∧ (r' == r) = true ∧ t.insert r' v = .ok (none, t')

/-- the `i`-th call puts the rectangle in -/
def EntersAt (t : Quadtree V) (ops : List (Op V)) (r : Rect) (i : Nat) : Prop :=
  ∃ o, ops[i]? = some o ∧ (t.run (ops.take i)).Enters o r

/-- the `i`-th call is the last one that puts the rectangle in -/
def Since (t : Quadtree V) (ops : List (Op V)) (r : Rect) (i : Nat) : Prop :=
  t.EntersAt ops r i ∧ ∀ j, t.EntersAt ops r j → j ≤ i

theorem EntersAt.lt_length {t : Quadtree V} {ops : List (Op V)} {r : Rect} {i : Nat} (h : t.EntersAt ops r i) :
    i < ops.length := by
  obtain ⟨o, ho, -⟩ := h
  exact (List.getElem?_eq_some_iff.1 ho).1

/-- with one more call, the calls that put a rectangle in are those before, and that one if it does -/
theorem entersAt_concat (t : Quadtree V) (ops : List (Op V)) (o : Op V) (r : Rect) (i : Nat) :
    t.EntersAt (ops ++ [o]) r i ↔ t.EntersAt ops r i ∨ i = ops.length ∧ (t.run ops).Enters o r := by
  rcases Nat.lt_trichotomy i ops.length with hi | rfl | hi
  · have hget : (ops ++ [o])[i]? = ops[i]? := List.getElem?_append_left hi
    have htake : (ops ++ [o]).take i = ops.take i := List.take_append_of_le_length (Nat.le_of_lt hi)
    rw [EntersAt, hget, htake]
    simp only [EntersAt, Nat.ne_of_lt hi, false_and, or_false]
  · have hbefore : ¬t.EntersAt ops r ops.length := fun h => Nat.lt_irrefl _ h.lt_length
    rw [EntersAt, List.getElem?_concat_length, List.take_left]
    simp [hbefore]
  · have hout {ops' : List (Op V)} (hle : ops'.length ≤ i) : ¬t.EntersAt ops' r i :=
      fun h => Nat.not_lt.2 hle h.lt_length
    have hle : (ops ++ [o]).length ≤ i := by
      rw [List.length_append]
      exact hi
    simp [hout hle, hout (Nat.le_of_lt hi), Nat.ne_of_gt hi]

/-- a call that does not put a rectangle in leaves the date of it -/
theorem since_concat_of_not {t : Quadtree V} {ops : List (Op V)} {o : Op V} {r : Rect} (h : ¬(t.run ops).Enters o r)
    (i : Nat) : t.Since (ops ++ [o]) r i ↔ t.Since ops r i := by
  simp only [Since, entersAt_concat, h, and_false, or_false]

/-- a call that puts a rectangle in is its new date -/
theorem since_concat {t : Quadtree V} {ops : List (Op V)} {o : Op V} {r : Rect} (h : (t.run ops).Enters o r) (i : Nat) :
    t.Since (ops ++ [o]) r i ↔ i = ops.length := by
  simp only [Since, entersAt_concat, h, and_true]
  constructor
  · rintro ⟨hi, hlast⟩
    have hle := hlast ops.length (.inr rfl)
    exact hi.elim (fun hi => absurd hi.lt_length (Nat.not_lt.2 hle)) id
  · rintro rfl
    exact ⟨.inr rfl, fun j hj => hj.elim (fun hj => Nat.le_of_lt hj.lt_length) Nat.le_of_eq⟩

/-! ## The order of the entries -/

/-- of two rectangles the first comes before the second: its node is earlier, or it is the same and its date is -/
def Precedes (t : Quadtree V) (ops : List (Op V)) (r r' : Rect) : Prop :=
  Earlier (t.region.path r) (t.region.path r') ∨
    t.region.path r = t.region.path r' ∧ ∀ i j, t.Since ops r i → t.Since ops r' j → i < j

/-- the rectangles of the entries, as they are listed -/
def rects (t : Quadtree V) : List Rect := t.root.toList.map (·.1)

/-- after the calls, each entry has the very rectangle of the call that dates it, and they are in order -/
structure Dated (t : Quadtree V) (ops : List (Op V)) : Prop where
  born : ∀ r ∈ (t.run ops).rects, ∃ i v, t.Since ops r i ∧ ops[i]? = some (.insert r v)
  ordered : (t.run ops).rects.Pairwise (t.Precedes ops)

section Step

variable {t : Quadtree V} {ops : List (Op V)} {o : Op V}

/-- a rectangle that the call does not put in keeps its date, and the call with that date -/
theorem Dated.born_concat (h : t.Dated ops) {r : Rect} (hr : r ∈ (t.run ops).rects) (ho : ¬(t.run ops).Enters o r) :
    ∃ i v, t.Since (ops ++ [o]) r i ∧ (ops ++ [o])[i]? = some (.insert r v) := by
  obtain ⟨i, v, hsince, hcall⟩ := h.born r hr
  refine ⟨i, v, (since_concat_of_not ho i).2 hsince, ?_⟩
  rw [List.getElem?_append_left hsince.1.lt_length, hcall]

theorem Precedes.concat {r r' : Rect} (h : t.Precedes ops r r') (ho : ¬(t.run ops).Enters o r)
    (ho' : ¬(t.run ops).Enters o r') : t.Precedes (ops ++ [o]) r r' := by
  simpa only [Precedes, since_concat_of_not ho, since_concat_of_not ho'] using h

theorem run_concat (t : Quadtree V) (ops : List (Op V)) (o : Op V) : t.run (ops ++ [o]) = (t.run ops).step o := by
  rw [run, List.foldl_append]
  rfl

/-- a call that puts nothing in keeps the order of what it leaves -/
theorem Dated.keep (h : t.Dated ops) (ho : ∀ r, ¬(t.run ops).Enters o r)
    (hleft : ((t.run ops).step o).rects.Sublist (t.run ops).rects) : t.Dated (ops ++ [o]) := by
  refine ⟨?_, ?_⟩ <;> rw [run_concat]
  · exact fun r hr => h.born_concat (hleft.subset hr) (ho r)
  · exact (h.ordered.sublist hleft).imp fun hprec => hprec.concat (ho _) (ho _)

/-- a call that puts a rectangle in behind the entries of its node, and before those of later nodes, keeps the order -/
theorem Dated.enter (h : t.Dated ops) {r : Rect} {v : V} (hr : (t.run ops).Enters (.insert r v) r)
    (hlacks : Table.Lacks (t.run ops).root.toList r) {xs zs : List (Rect × V)}
    (hbefore : (t.run ops).root.toList = xs ++ zs)
    (hafter : ((t.run ops).step (.insert r v)).root.toList = xs ++ (r, v) :: zs)
    (hxs : ∀ e ∈ xs, Earlier (t.region.path e.1) (t.region.path r) ∨ t.region.path e.1 = t.region.path r)
    (hzs : ∀ e ∈ zs, Earlier (t.region.path r) (t.region.path e.1)) : t.Dated (ops ++ [.insert r v]) := by
  have hother : ∀ e ∈ xs ++ zs, ¬(t.run ops).Enters (.insert r v) e.1 := by
    rintro e he ⟨r', v', t', hcall, hk, -⟩
    obtain ⟨rfl, rfl⟩ := Op.insert.inj hcall
    have := hlacks e (hbefore ▸ he)
    rw [BEq.symm hk] at this
    cases this
  have hmem : ∀ e ∈ xs ++ zs, e.1 ∈ (t.run ops).rects := fun e he => List.mem_map_of_mem (hbefore ▸ he)
  have hnew : t.Since (ops ++ [.insert r v]) r ops.length := (since_concat hr _).2 rfl
  refine ⟨?_, ?_⟩ <;> rw [run_concat, rects, hafter]
  · intro k hk
    obtain ⟨e, he, rfl⟩ := List.mem_map.1 hk
    rw [List.mem_append, List.mem_cons] at he
    rcases he with he | rfl | he
    · have he := List.mem_append_left zs he
      exact h.born_concat (hmem e he) (hother e he)
    · exact ⟨ops.length, v, hnew, List.getElem?_concat_length⟩
    · have he := List.mem_append_right xs he
      exact h.born_concat (hmem e he) (hother e he)
  · have hold : (xs ++ zs).Pairwise fun e e' => t.Precedes (ops ++ [.insert r v]) e.1 e'.1 := by
      have hordered := h.ordered
      rw [rects, hbefore, List.pairwise_map] at hordered
      exact hordered.imp_of_mem fun he he' hprec => hprec.concat (hother _ he) (hother _ he')
    rw [List.pairwise_append] at hold
    obtain ⟨hpx, hpz, hcross⟩ := hold
    rw [List.pairwise_map, List.pairwise_append, List.pairwise_cons]
    refine ⟨hpx, ⟨fun e he => .inl (hzs e he), hpz⟩, ?_⟩
    intro e he e' he'
    rcases List.mem_cons.1 he' with rfl | he'
    · -- at the same node the new entry is last, since its date is the last call
      refine (hxs e he).imp id fun hpath => ⟨hpath, ?_⟩
      intro i j hi hj
      rw [(since_concat hr j).1 hj]
      exact ((since_concat_of_not (hother e (List.mem_append_left zs he)) i).1 hi).1.lt_length
    · exact hcross e he e' he'

end Step

/-- an insertion that returns nothing puts its rectangle in place, behind all entries of its node -/
theorem Sound.insert_of_none {t t' : Quadtree V} (h : t.Sound) {r : Rect} {v : V} (hi : t.insert r v = .ok (none, t')) :
    Table.Lacks t.root.toList r ∧ (r == r) = true ∧
      ∃ xs zs, t.root.toList = xs ++ zs ∧ t'.root.toList = xs ++ (r, v) :: zs ∧
        (∀ e ∈ xs, Earlier (t.region.path e.1) (t.region.path r) ∨ t.region.path e.1 = t.region.path r) ∧
        ∀ e ∈ zs, Earlier (t.region.path r) (t.region.path e.1) := by
  obtain ⟨hvalid, hnone, rfl⟩ := h.insert_of_ok hi
  have hlacks : Table.Lacks t.root.toList r := Table.get?_eq_none_iff.1 hnone
  exact ⟨hlacks, Rect.beq_self_of_isValid hvalid, h.placed.insert_of_none h.rooted hlacks v⟩

/-- an insertion that returns a value keeps the list of rectangles -/
theorem Sound.rects_of_some {t t' : Quadtree V} (h : t.Sound) {r : Rect} {v old : V}
    (hi : t.insert r v = .ok (some old, t')) : t'.rects = t.rects := by
  obtain ⟨-, rfl⟩ := h.insert_of_some hi
  rw [rects, rects, Subtree.toList_overwrite, Table.overwrite, List.map_map]
  apply List.map_congr_left
  intro e he
  show (if e.1 == r then (e.1, v) else e).1 = e.1
  split <;> rfl

/-- **Every call keeps the order.** -/
theorem Dated.step {t : Quadtree V} {ops : List (Op V)} (h : t.Dated ops) (hsound : (t.run ops).Sound)
    (hregion : (t.run ops).region = t.region) (o : Op V) : t.Dated (ops ++ [o]) := by
  cases o with
  | insert r v =>
    cases hi : (t.run ops).insert r v with
    | error e =>
      apply h.keep
      · rintro r' ⟨r₁, v₁, t₁, hcall, -, hok⟩
        obtain ⟨rfl, rfl⟩ := Op.insert.inj hcall
        rw [hi] at hok
        cases hok
      · have hstep : (t.run ops).step (.insert r v) = t.run ops := by rw [Quadtree.step, hi]
        simp only [hstep, List.Sublist.refl]
    | ok answer =>
      obtain ⟨old, t'⟩ := answer
      cases old with
      | some old =>
        apply h.keep
        · rintro r' ⟨r₁, v₁, t₁, hcall, -, hok⟩
          obtain ⟨rfl, rfl⟩ := Op.insert.inj hcall
          rw [hi] at hok
          cases hok
        · have hstep : (t.run ops).step (.insert r v) = t' := by rw [Quadtree.step, hi]
          simp only [hstep, hsound.rects_of_some hi, List.Sublist.refl]
      | none =>
        obtain ⟨hlacks, hself, xs, zs, hbefore, hafter, hxs, hzs⟩ := hsound.insert_of_none hi
        rw [hregion] at hxs hzs
        exact h.enter ⟨r, v, t', rfl, hself, hi⟩ hlacks hbefore (by rw [Quadtree.step, hi, hafter]) hxs hzs
  | remove r =>
    apply h.keep
    · rintro r' ⟨r₁, v₁, t₁, hcall, -⟩
      cases hcall
    · show (((t.run ops).remove r).2.root.toList.map (·.1)).Sublist _
      rw [(remove_eq _ hsound r).2.2]
      exact List.filter_sublist.map _

theorem dated_run (g : Region) (ops : List (Op V)) : (empty g : Quadtree V).Dated ops := by
  -- from the end of the calls, because a date is that of the last call of its kind
  induction ops using List.reverseRecOn with
  | nil =>
    refine ⟨?_, List.Pairwise.nil⟩
    intro r hr
    cases hr
  | append_singleton ops o ih =>
    have hagrees : Agrees g ((empty g).run ops) (reference g ops) := run_empty_agrees g ops
    exact ih.step hagrees.sound hagrees.region o

/-! ## What is shown -/

/-- a query is about those entries that pass a test on their rectangles -/
theorem scan_eq_filter (query : Rect) (entries : List (Rect × V)) :
    scan query entries = entries.filter fun e => Binary.zero.le (Box.ofRect query).width &&
      Binary.zero.le (Box.ofRect query).height && decide ((Box.ofRect e.1).Meets (Box.ofRect query)) := by
  simp only [scan]
  split
  · rename_i hextent
    simp only [hextent, Bool.true_and]
  · rename_i hextent
    simp only [hextent, Bool.false_and]
    exact (List.filter_eq_nil_iff.2 fun e _ => Bool.false_ne_true).symm

theorem scan_append (query : Rect) (xs zs : List (Rect × V)) : scan query (xs ++ zs) = scan query xs ++ scan query zs := by
  simp only [scan_eq_filter, List.filter_append]

theorem scan_filter (query : Rect) (p : Rect × V → Bool) (xs : List (Rect × V)) :
    scan query (xs.filter p) = (scan query xs).filter p := by
  simp only [scan_eq_filter, List.filter_filter, Bool.and_comm]

/-- other values under the same rectangles are shown in the same places -/
theorem scan_overwrite (query : Rect) (es : Table Rect V) (r : Rect) (v : V) :
    scan query (es.overwrite r v).entries = ((⟨scan query es.entries⟩ : Table Rect V).overwrite r v).entries := by
  simp only [Table.overwrite, scan_eq_filter, List.filter_map]
  congr 1
  apply List.filter_congr
  intro e he
  show _ = _
  simp only [Function.comp]
  split <;> rfl

theorem mem_of_mem_scan {query : Rect} {entries : List (Rect × V)} {e : Rect × V} (h : e ∈ scan query entries) :
    e ∈ entries := by
  rw [scan_eq_filter] at h
  exact (List.mem_filter.1 h).1

/-! ## Main result -/

/-- **The order in which collection shows entries is fixed by the calls.** After any calls on a new tree, and for any query:

- a callback in any monad is run over the list of what is shown, which is what a scan of the nodes finds, each node before
  those below it, and these by quadrant; an entry stands at the node at the end of its rectangle's way;
- every rectangle that is shown is, bit for bit, that of the last insertion that put it in, and finding none is what makes
  an insertion put a rectangle in; entries are shown by node, and at one node by the times of these insertions;
- an insertion that returns a value exchanges one value in what is shown, and a removal closes a gap; an insertion that
  returns nothing puts its entry, if the query is about it, behind all those of its node and of earlier nodes, and before
  those of later nodes. -/
theorem order_of_history {t₀ : Quadtree V} (h : new g = .ok t₀) (ops : List (Op V)) (query : Rect) :
    let t := t₀.run ops
    (∀ {m : Type → Type} [Monad m] [LawfulMonad m] (f : Rect → V → m Unit),
      t.collect query f = (t.shown query).forM fun e => f e.1 e.2) ∧
    t.shown query = scan query (t.root.subtrees.flatMap Subtree.own) ∧
    (∀ path e, e ∈ (t.root.follow path).own ↔ e ∈ t.root.toList ∧ g.path e.1 = path) ∧
    (∀ e ∈ t.shown query, ∃ i v, t₀.Since ops e.1 i ∧ ops[i]? = some (.insert e.1 v)) ∧
    ((t.shown query).Pairwise fun e e' => Earlier (g.path e.1) (g.path e'.1) ∨
      g.path e.1 = g.path e'.1 ∧ ∀ i j, t₀.Since ops e.1 i → t₀.Since ops e'.1 j → i < j) ∧
    (∀ r v old t', t.insert r v = .ok (some old, t') →
      t'.shown query = (t.shown query).map fun e => if e.1 == r then (e.1, v) else e) ∧
    (∀ r, (t.remove r).2.shown query = (t.shown query).filter fun e => !(e.1 == r)) ∧
    ∀ r v t', t.insert r v = .ok (none, t') → ∃ xs zs,
      t.shown query = xs ++ zs ∧ t'.shown query = xs ++ scan query [(r, v)] ++ zs ∧
        (∀ e ∈ xs, Earlier (g.path e.1) (g.path r) ∨ g.path e.1 = g.path r) ∧
        ∀ e ∈ zs, Earlier (g.path r) (g.path e.1) := by
  intro t
  obtain rfl := new_eq_ok h
  have hagrees : Agrees g t (reference g ops) := run_empty_agrees g ops
  have hsound : t.Sound := hagrees.sound
  have hregion : t.region = g := hagrees.region
  have hdated : (empty g : Quadtree V).Dated ops := dated_run g ops
  have hshown : t.shown query = scan query t.root.toList := hsound.shown_eq query
  have hafter (o : Op V) : (t.step o).shown query = scan query (t.step o).root.toList :=
    (step_agrees hagrees o).sound.shown_eq query
  refine ⟨?_, ?_, ?_, ?_, ?_, ?_, ?_, ?_⟩
  · intro m _ _ f
    rw [hshown]
    exact hsound.collect_eq query f
  · rw [hshown, Subtree.toList_eq_flatMap]
  · intro path e
    have hplaced := hsound.placed
    rw [hregion] at hplaced
    exact hplaced.mem_own_follow
  · intro e he
    rw [hshown] at he
    exact hdated.born e.1 (List.mem_map_of_mem (mem_of_mem_scan he))
  · rw [hshown, scan_eq_filter]
    exact (List.pairwise_map.1 hdated.ordered).filter _
  · intro r v old t' hi
    have hstep : t.step (.insert r v) = t' := by rw [step, hi]
    obtain ⟨-, ht'⟩ := hsound.insert_of_some hi
    rw [← hstep, hafter, hstep, ht', Subtree.toList_overwrite, scan_overwrite, hshown]
    rfl
  · intro r
    obtain ⟨-, -, hlist⟩ := t.remove_eq hsound r
    rw [hshown, ← scan_filter, ← hlist]
    exact hafter (.remove r)
  · intro r v t' hi
    have hstep : t.step (.insert r v) = t' := by rw [step, hi]
    obtain ⟨-, -, xs, zs, hbefore, hbehind, hxs, hzs⟩ := hsound.insert_of_none hi
    rw [hregion] at hxs hzs
    refine ⟨scan query xs, scan query zs, ?_, ?_, fun e he => hxs e (mem_of_mem_scan he),
      fun e he => hzs e (mem_of_mem_scan he)⟩
    · rw [hshown, hbefore, scan_append]
    · rw [← hstep, hafter, hstep, hbehind, ← List.singleton_append, scan_append, scan_append, List.append_assoc]

/-- a point that comes in beside another one at the same node, under one zero, is overwritten under the other and then
leaves, and comes back under that -/
def leavingAndBack : List (Op Nat) :=
  [.insert (edgePoint true) 1, .insert (diagonal 25) 2, .insert (edgePoint false) 3, .insert (diagonal 50) 4,
    .remove (edgePoint false), .insert (edgePoint false) 5]

/-- an upsert keeps the place of an entry and its zero; coming back puts the entry last at its node, with its new zero -/
theorem order_on_square :
    new square = .ok (empty square : Quadtree Nat) ∧
      let before := leavingAndBack.take 4
      ((empty square).run before).shown square.rect = [(diagonal 50, 4), (edgePoint true, 3), (diagonal 25, 2)] ∧
        (∃ i v, (empty square).Since before (edgePoint true) i ∧ before[i]? = some (.insert (edgePoint true) v)) ∧
        ((empty square).run leavingAndBack).shown square.rect =
          [(diagonal 50, 4), (diagonal 25, 2), (edgePoint false, 5)] ∧
        square.path (diagonal 25) = square.path (edgePoint false) ∧
        ∀ i j, (empty square).Since leavingAndBack (diagonal 25) i →
          (empty square).Since leavingAndBack (edgePoint false) j → i < j := by
  have h : new square = .ok (empty square : Quadtree Nat) := new_of_validate (by decide +kernel)
  have hbefore : ((empty square).run (leavingAndBack.take 4)).shown square.rect =
      [(diagonal 50, 4), (edgePoint true, 3), (diagonal 25, 2)] := by decide +kernel
  have hback : ((empty square).run leavingAndBack).shown square.rect =
      [(diagonal 50, 4), (diagonal 25, 2), (edgePoint false, 5)] := by decide +kernel
  have hpath : square.path (diagonal 25) = square.path (edgePoint false) := by decide +kernel
  obtain ⟨-, -, -, hborn, -⟩ := order_of_history h (leavingAndBack.take 4) square.rect
  obtain ⟨-, -, -, -, hordered, -⟩ := order_of_history h leavingAndBack square.rect
  rw [hback] at hordered
  refine ⟨h, hbefore, hborn (edgePoint true, 3) (by rw [hbefore]; simp), hback, hpath, ?_⟩
  have hpair := (List.pairwise_cons.1 (List.pairwise_cons.1 hordered).2).1 (edgePoint false, 5) List.mem_cons_self
  rcases hpair with hearlier | ⟨-, hdates⟩
  · exact absurd hpath hearlier.ne
  · exact hdates

end Quadtree
end EventMatching
