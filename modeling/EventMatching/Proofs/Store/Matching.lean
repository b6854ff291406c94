/-
Matching against the filters that are registered.

`Store.hits` lists what an event satisfies in a live index: constants, each with the set of its handles. Matching some
live indexes in turn appends the handles of their hits, or stops at the first index with a fault, fails with that fault
and keeps what it has appended before (`matchIndexes_cases`). In a coherent session the hits are just the registered
filters that the event satisfies, each constant once (`hits_answer`). So matching is sound, complete and append-only, in
whatever order the indexes are visited (`matches_of_filters`).
-/
import EventMatching.Store.Matching
import EventMatching.Proofs.Index.Visit
import EventMatching.Proofs.Store.Runs

namespace EventMatching

open scoped List

/-- a constant that an event satisfies in the index under a key, with the handles that are reported for it -/
structure Hit where
  key : String
  constant : Constant
  handles : HandleSet

namespace Store

variable {s : Store} {event : Event} {i : IndexId} {ix : Index EvaluatorId}

/-- the entry of an index as a hit -/
def hitOf (s : Store) (ix : Index EvaluatorId) (e : Constant × EvaluatorId) : Hit :=
  ⟨registryKey ix.operator ix.lookup, e.1, (s.handles? e.2).getD .empty⟩

/-- what the event satisfies in an index, in the order in which the index holds it -/
def hits (s : Store) (event : Event) (i : IndexId) : List Hit :=
  match s.index? i with
  | some ix => (ix.contents.entries.filter fun e => ix.lookup.satisfies event e.1).map (s.hitOf ix)
  | none => []

/-- the handles of some hits, one constant after the other -/
def handlesOf (hs : List Hit) : List Handle := hs.flatMap fun hit => hit.handles.toList

theorem handlesOf_append (hs hs' : List Hit) : handlesOf (hs ++ hs') = handlesOf hs ++ handlesOf hs' :=
  List.flatMap_append

/-- a handle occurs once for each hit that has it -/
theorem count_handlesOf (hs : List Hit) (h : Handle) :
    (handlesOf hs).count h = hs.countP fun hit => hit.handles.contains h := by
  induction hs with
  | nil => rfl
  | cons hit hs ih =>
    have hone : hit.handles.toList.count h = if hit.handles.contains h then 1 else 0 := by
      rw [hit.handles.nodup.count]
      simp [HandleSet.contains]
    calc (handlesOf (hit :: hs)).count h
      _ = hit.handles.toList.count h + (handlesOf hs).count h := List.count_append
      _ = (if hit.handles.contains h then 1 else 0) + hs.countP fun hit => hit.handles.contains h := by rw [hone, ih]
      _ = (hit :: hs).countP fun hit => hit.handles.contains h := by rw [List.countP_cons, Nat.add_comm]

/-- the first error that reading the event for an index meets -/
def fault? (s : Store) (event : Event) (i : IndexId) : Option Error := (s.index? i).bind fun ix => ix.lookup.fault? event

/-! ## One index -/

/-- a set of handles is appended, however deep the evaluator lies -/
theorem evaluate_handles {ev : EvaluatorId} {set : HandleSet} (h : s.handles? ev = some set) (event : Event) (depth : Nat) :
    s.evaluate event depth ev = modify (· ++ set.toList) := by
  have hev : s.evaluator? ev = some (.handles set) := evaluator?_of_handles? h
  cases depth <;> simp only [evaluate, hev]

/-- a loop of evaluators that append handles appends them all -/
theorem forM_report {α : Type} {run : α → Matching} {f : α → List Handle} {xs : List α}
    (h : ∀ x ∈ xs, run x = modify (· ++ f x)) (m : List Handle) : xs.forM run m = .ok () (m ++ xs.flatMap f) := by
  induction xs generalizing m with
  | nil =>
    show EStateM.Result.ok () m = _
    rw [List.flatMap_nil, List.append_nil]
  | cons x xs ih =>
    show EStateM.bind (run x) (fun _ => xs.forM run) m = _
    rw [EStateM.bind, h x List.mem_cons_self]
    show xs.forM run (m ++ f x) = _
    rw [ih fun y hy => h y (List.mem_cons_of_mem _ hy), List.flatMap_cons, List.append_assoc]

/-- a loop does the same with bodies that do the same on all its elements -/
theorem forM_congr {α : Type} {f g : α → Matching} {xs : List α} (h : ∀ x ∈ xs, f x = g x) : xs.forM f = xs.forM g := by
  induction xs with
  | nil => rfl
  | cons x xs ih =>
    show (f x >>= fun _ => xs.forM f) = (g x >>= fun _ => xs.forM g)
    rw [h x List.mem_cons_self, ih fun y hy => h y (List.mem_cons_of_mem _ hy)]

end Store

namespace Session

open Store

variable {s : Store} {fs : List Filter} {event : Event} {i : IndexId}

theorem Coherent.matchIndex_eq (hs : Coherent s fs) (hi : i ∈ s.live) (event : Event) (m : List Handle) :
    s.matchIndex event i m =
      match s.fault? event i with
      | some e => .error e m
      | none => .ok () (m ++ handlesOf (s.hits event i)) := by
  obtain ⟨k, hk⟩ := hs.sound.live_iff.1 hi
  obtain ⟨ix, hx, hf⟩ := hs.sound.filed hk
  simp only [matchIndex, fault?, hits, hx, Option.bind_some]
  rw [Index.visit_eq hf.sound]
  cases hfault : ix.lookup.fault? event with
  | some e => rfl
  | none =>
    -- the entries of a live index have sets of handles
    have hrun : ∀ e ∈ ix.contents.entries.filter (fun e => ix.lookup.satisfies event e.1),
        s.evaluate event (s.indexes.length - 1) e.2 = modify (· ++ (s.hitOf ix e).handles.toList) := by
      intro e he
      have hmem : e ∈ s.entriesUnder k := by
        rw [Store.entriesUnder_some (Store.indexUnder_eq hk hx)]
        exact (List.mem_filter.1 he).1
      obtain ⟨set, hset, -⟩ := hs.ledger.filled hmem
      rw [evaluate_handles hset]
      simp only [hitOf, hset, Option.getD_some]
    simp only [handlesOf, List.flatMap_map]
    exact forM_report hrun m

/-! ## Several indexes -/

/-- either no index has a fault, and the hits of all are reported, or those of the indexes before the first fault are -/
theorem Coherent.matchIndexes_cases (hs : Coherent s fs) (event : Event) {order : List IndexId}
    (horder : ∀ i ∈ order, i ∈ s.live) (m : List Handle) :
    ((∀ i ∈ order, s.fault? event i = none) ∧
      s.matchIndexes event order m = .ok () (m ++ handlesOf (order.flatMap (s.hits event)))) ∨
    ∃ pre i post e, order = pre ++ i :: post ∧ (∀ j ∈ pre, s.fault? event j = none) ∧ s.fault? event i = some e ∧
      s.matchIndexes event order m = .error e (m ++ handlesOf (pre.flatMap (s.hits event))) := by
  induction order generalizing m with
  | nil =>
    refine .inl ⟨(fun i hi => nomatch hi), ?_⟩
    show EStateM.Result.ok () m = .ok () (m ++ [])
    rw [List.append_nil]
  | cons i order ih =>
    have hi := hs.matchIndex_eq (horder i List.mem_cons_self) event m
    have hstep : s.matchIndexes event (i :: order) m =
        EStateM.bind (s.matchIndex event i) (fun _ => s.matchIndexes event order) m := rfl
    rw [hstep, EStateM.bind, hi]
    cases hfault : s.fault? event i with
    | some e =>
      refine .inr ⟨[], i, order, e, rfl, (fun j hj => nomatch hj), hfault, ?_⟩
      show EStateM.Result.error e m = .error e (m ++ [])
      rw [List.append_nil]
    | none =>
      have happend : ∀ is : List IndexId, m ++ handlesOf ((i :: is).flatMap (s.hits event)) =
          m ++ handlesOf (s.hits event i) ++ handlesOf (is.flatMap (s.hits event)) := by
        intro is
        rw [List.flatMap_cons, handlesOf_append, List.append_assoc]
      have hrest := ih (fun j hj => horder j (List.mem_cons_of_mem _ hj)) (m ++ handlesOf (s.hits event i))
      rcases hrest with ⟨hnone, hr⟩ | ⟨pre, j, post, e, rfl, hnone, hsome, hr⟩
      · refine .inl ⟨List.forall_mem_cons.2 ⟨hfault, hnone⟩, ?_⟩
        rw [happend]
        exact hr
      · refine .inr ⟨i :: pre, j, post, e, rfl, List.forall_mem_cons.2 ⟨hfault, hnone⟩, hsome, ?_⟩
        rw [happend]
        exact hr

/-! ## Hits and filters -/

/-- the hits answer for some indexes: they are constants that the event satisfies there, no two of them equal in one
index, each with just the handles that are registered under it; and they leave out no filter that the event satisfies -/
structure Answers (x : Session) (event : Event) (visited : List IndexId) (hits : List Hit) : Prop where
  satisfied : ∀ hit ∈ hits, ∃ i ∈ visited, ∃ ix, x.store.registry.get? hit.key = some i ∧ x.store.index? i = some ix ∧
    ix.lookup.satisfies event hit.constant = true
  registered : ∀ hit ∈ hits, hit.handles.toList ≠ [] ∧
    ∀ h, h ∈ hit.handles.toList ↔ x.filters.contains ⟨hit.key, hit.constant, h⟩ = true
  once : hits.Pairwise fun a b => ¬(a.key = b.key ∧ a.constant == b.constant)
  complete : ∀ f, x.filters.contains f = true → ∃ i ix, x.store.registry.get? f.key = some i ∧ x.store.index? i = some ix ∧
    (i ∈ visited → ix.lookup.satisfies event f.constant = true → ∃ hit ∈ hits, hit.key = f.key ∧ hit.constant == f.constant)

/-- the hits of a live index are the satisfied entries under its key -/
theorem Coherent.mem_hits (hs : Coherent s fs) {k : String} {ix : Index EvaluatorId} (hk : s.registry.get? k = some i)
    (hx : s.index? i = some ix) {hit : Hit} :
    hit ∈ s.hits event i ↔ ∃ e ∈ s.entriesUnder k, ix.lookup.satisfies event e.1 = true ∧
      hit.key = k ∧ hit.constant = e.1 ∧ s.handles? e.2 = some hit.handles := by
  obtain ⟨ix', hx', hf⟩ := hs.sound.filed hk
  obtain rfl := Option.some.inj (hx.symm.trans hx')
  simp only [hits, hx, List.mem_map, List.mem_filter, Store.entriesUnder_some (Store.indexUnder_eq hk hx)]
  have hset : ∀ e ∈ ix.contents.entries, ∃ set, s.handles? e.2 = some set := by
    intro e he
    rw [← Store.entriesUnder_some (Store.indexUnder_eq hk hx)] at he
    obtain ⟨set, hset, -⟩ := hs.ledger.filled he
    exact ⟨set, hset⟩
  constructor
  · intro hhit
    obtain ⟨e, ⟨he, hsat⟩, rfl⟩ := hhit
    obtain ⟨set, hset⟩ := hset e he
    exact ⟨e, he, hsat, hf.key, rfl, by rw [hitOf, hset, Option.getD_some]⟩
  · intro hentry
    obtain ⟨e, he, hsat, hkey, hconst, hhandles⟩ := hentry
    refine ⟨e, ⟨he, hsat⟩, ?_⟩
    obtain ⟨key, constant, handles⟩ := hit
    simp only at hkey hconst hhandles
    rw [hitOf, hhandles, Option.getD_some, hf.key, hkey, hconst]

theorem hits_answer {x : Session} (hs : Coherent x.store x.filters) (event : Event) {visited : List IndexId}
    (hnodup : visited.Nodup) (hlive : ∀ i ∈ visited, i ∈ x.store.live) :
    Answers x event visited (visited.flatMap (x.store.hits event)) := by
  have hl := hs.ledger
  -- the index that a hit is from, and its entry
  have hsource : ∀ i ∈ visited, ∀ hit ∈ x.store.hits event i, x.store.registry.get? hit.key = some i ∧
      ∃ ix, x.store.index? i = some ix ∧ ∃ e ∈ x.store.entriesUnder hit.key,
        ix.lookup.satisfies event e.1 = true ∧ hit.constant = e.1 ∧ x.store.handles? e.2 = some hit.handles := by
    intro i hi hit hhit
    obtain ⟨k, hk⟩ := hs.sound.live_iff.1 (hlive i hi)
    obtain ⟨ix, hx, hf⟩ := hs.sound.filed hk
    obtain ⟨e, he, hsat, rfl, hconst, hhandles⟩ := (hs.mem_hits hk hx).1 hhit
    exact ⟨hk, ix, hx, e, he, hsat, hconst, hhandles⟩
  refine ⟨?_, ?_, ?_, ?_⟩
  · intro hit hhit
    obtain ⟨i, hi, hhit⟩ := List.mem_flatMap.1 hhit
    obtain ⟨hk, ix, hx, e, -, hsat, hconst, -⟩ := hsource i hi hit hhit
    exact ⟨i, hi, ix, hk, hx, hconst ▸ hsat⟩
  · intro hit hhit
    obtain ⟨i, hi, hhit⟩ := List.mem_flatMap.1 hhit
    obtain ⟨-, ix, -, e, he, -, hconst, hhandles⟩ := hsource i hi hit hhit
    obtain ⟨set, hset, hne, hiff⟩ := hl.set_of he (hl.findable he)
    obtain rfl := Option.some.inj (hset.symm.trans hhandles)
    refine ⟨hne, ?_⟩
    intro h
    rw [hconst]
    exact hiff h
  · rw [List.pairwise_flatMap]
    refine ⟨?_, hnodup.imp_of_mem ?_⟩
    · intro i hi
      obtain ⟨k, hk⟩ := hs.sound.live_iff.1 (hlive i hi)
      obtain ⟨ix, hx, hf⟩ := hs.sound.filed hk
      have hsingle := hl.single k
      rw [Store.entriesUnder_some (Store.indexUnder_eq hk hx)] at hsingle
      simp only [hits, hx]
      refine List.pairwise_map.2 ((hsingle.filter _).imp ?_)
      intro a b hne hab
      have hbeq : (a.1 == b.1) = true := hab.2
      rw [hbeq] at hne
      cases hne
    · intro i j hi hj hij a ha b hb hab
      -- indexes that differ are live under keys that differ
      have hka := (hsource _ hi a ha).1
      rw [hab.1, (hsource _ hj b hb).1] at hka
      exact hij (Option.some.inj hka).symm
  · intro f hf
    obtain ⟨e, he, hec, -⟩ := hl.listed.1 hf
    obtain ⟨i, ix, hk, hx⟩ := hs.sound.index_of_entry he
    refine ⟨i, ix, hk, hx, ?_⟩
    intro hi hsat
    obtain ⟨set, hset, -⟩ := hl.filled he
    have hhit : ⟨f.key, e.1, set⟩ ∈ x.store.hits event i :=
      (hs.mem_hits hk hx).2 ⟨e, he, (ix.lookup.satisfies_congr event hec).trans hsat, rfl, rfl, hset⟩
    exact ⟨_, List.mem_flatMap.2 ⟨i, hi, hhit⟩, rfl, hec⟩

/-! ## Main result -/

/-- **Matching is sound, complete and append-only.** After any calls on an empty store, for any event and any matches
`m` found before, the live indexes being visited in any order. Matching succeeds just if no live index has a fault. Then
it has appended to `m` the handles of hits that answer for all live indexes, those of each constant in one piece and
ascending, so that a handle comes once more for each hit that has it. Otherwise some index has the fault that is returned,
those visited before it have none, and what has been appended to `m` are the handles of hits that answer for those. -/
theorem matches_of_filters (areas : Bool) (calls : List Call) (event : Event) (m : List Handle) (order : List IndexId)
    (horder : order ~ ((start areas).run calls).store.live) :
    let x := (start areas).run calls
    ((∃ l, x.store.matchIndexes event order m = .ok () l) ↔ ∀ i ∈ x.store.live, x.store.fault? event i = none) ∧
    (∀ l, x.store.matchIndexes event order m = .ok () l → ∃ hits, l = m ++ handlesOf hits ∧ Answers x event order hits ∧
      ∀ h, l.count h = m.count h + hits.countP fun hit => hit.handles.contains h) ∧
    (∀ e l, x.store.matchIndexes event order m = .error e l → ∃ pre i post, order = pre ++ i :: post ∧
      (∀ j ∈ pre, x.store.fault? event j = none) ∧ x.store.fault? event i = some e ∧
      ∃ hits, l = m ++ handlesOf hits ∧ Answers x event pre hits) := by
  intro x
  have hs : Coherent x.store x.filters := run_coherent (start_coherent areas) calls
  have hlive : ∀ i ∈ order, i ∈ x.store.live := fun i hi => horder.mem_iff.1 hi
  have hnodup : order.Nodup := horder.nodup_iff.2 hs.sound.live_nodup
  rcases hs.matchIndexes_cases event hlive m with ⟨hnone, hr⟩ | ⟨pre, i, post, e, hsplit, hnone, hsome, hr⟩
  · rw [hr]
    refine ⟨⟨?_, ?_⟩, ?_, ?_⟩
    · intro _ i hi
      exact hnone i (horder.mem_iff.2 hi)
    · intro _
      exact ⟨_, rfl⟩
    · intro l hl
      cases hl
      refine ⟨_, rfl, hits_answer hs event hnodup hlive, ?_⟩
      intro h
      rw [List.count_append, count_handlesOf]
    · intro e l hl
      cases hl
  · rw [hr]
    refine ⟨⟨?_, ?_⟩, ?_, ?_⟩
    · intro hok
      obtain ⟨l, hl⟩ := hok
      cases hl
    · intro hall
      have hi : i ∈ order := by
        rw [hsplit]
        exact List.mem_append_right _ List.mem_cons_self
      rw [hall i (hlive i hi)] at hsome
      cases hsome
    · intro l hl
      cases hl
    · intro e' l hl
      cases hl
      -- the indexes before the fault are live and differ, as all do
      have hsub : pre.Sublist order := by
        rw [hsplit]
        exact List.sublist_append_left _ _
      exact ⟨pre, i, post, hsplit, hnone, hsome, _, rfl,
        hits_answer hs event (hnodup.sublist hsub) fun j hj => hlive j (hsub.subset hj)⟩

/-- a bus at the corner of the rectangle -/
def busAtCorner : Event :=
  ⟨"Position", [("kind", .text "bus"), ("ph", .double .zero), ("pw", .double .zero), ("px", .double (.ofInt 15)),
    ("py", .double (.ofInt 15))]⟩

/-- the order in which the two indexes are visited is the other one than that in which they came -/
theorem matches_on_square :
    let s := ((start true).run threeFilters).store
    [⟨1⟩, ⟨0⟩] ~ s.live ∧
      s.matchIndexes busAtCorner [⟨1⟩, ⟨0⟩] [⟨0, 0⟩] = .ok () [⟨0, 0⟩, ⟨1, 8⟩, ⟨1, 5⟩, ⟨2, 7⟩] := by
  have horder : [⟨1⟩, ⟨0⟩] ~ ((start true).run threeFilters).store.live := by
    rw [show ((start true).run threeFilters).store.live = [⟨0⟩, ⟨1⟩] by decide +kernel]
    exact .swap ..
  obtain ⟨hok, -, -⟩ := matches_of_filters true threeFilters busAtCorner [⟨0, 0⟩] [⟨1⟩, ⟨0⟩] horder
  obtain ⟨l, hl⟩ := hok.2 (by decide +kernel)
  have hend : (match ((start true).run threeFilters).store.matchIndexes busAtCorner [⟨1⟩, ⟨0⟩] [⟨0, 0⟩] with
      | .ok _ l => l
      | .error _ l => l) = [⟨0, 0⟩, ⟨1, 8⟩, ⟨1, 5⟩, ⟨2, 7⟩] := by decide +kernel
  rw [hl] at hend
  exact ⟨horder, hl.trans (congrArg (EStateM.Result.ok ()) hend)⟩

end Session
end EventMatching
