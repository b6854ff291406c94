/-
The invariant of a store, and what changes to a store do.

A store is `Sound` if its catalog is faithful and each key of the registry leads to a sound index that is filed under the
key of its own operator and lookup; so one index is under one key. `indexUnder` and `entriesUnder` are what a key leads
to. For each change (a new evaluator, another evaluator or index in the place of one, an index that becomes live or is
live no longer) there is what it does to the sets of handles and to the entries under each key, and that the store stays
sound.
-/
import EventMatching.Store.Registry
import EventMatching.Proofs.Index.Contents

namespace EventMatching

open scoped List

namespace Store

variable {s : Store} {k : String} {i : IndexId} {ix : Index EvaluatorId}

/-- the live index under a key -/
def indexUnder (s : Store) (k : String) : Option (Index EvaluatorId) := (s.registry.get? k).bind s.index?

/-- the entries of the live index under a key, none if there is no such index -/
def entriesUnder (s : Store) (k : String) : List (Constant × EvaluatorId) :=
  match s.indexUnder k with
  | some ix => ix.contents.entries
  | none => []

/-- a sound index that is filed under the key of its operator and lookup -/
structure Filed (k : String) (ix : Index EvaluatorId) : Prop where
  sound : ix.Sound
  key : registryKey ix.operator ix.lookup = k

/-- an index is filed as it is built -/
theorem Filed.of_fresh {op : Operator} {l : Lookup} (h : ix.Fresh op l) : Filed (registryKey op l) ix :=
  ⟨h.sound, by rw [h.operator, h.lookup]⟩

/-- an index stays filed as it changes -/
theorem Filed.serves {ix' : Index EvaluatorId} (hf : Filed k ix) (hserves : ix.Serves ix') (hsound : ix'.Sound) :
    Filed k ix' := ⟨hsound, by rw [hserves.operator, hserves.lookup, hf.key]⟩

structure Sound (s : Store) : Prop where
  faithful : s.catalog.Faithful
  distinct : s.registry.Distinct
  filed : ∀ {k i}, s.registry.get? k = some i → ∃ ix, s.index? i = some ix ∧ Filed k ix

/-- an index is live under one key only -/
theorem Sound.key_unique (hs : s.Sound) {k' : String} (hk : s.registry.get? k = some i)
    (hk' : s.registry.get? k' = some i) : k = k' := by
  obtain ⟨ix, hx, hf⟩ := hs.filed hk
  obtain ⟨ix', hx', hf'⟩ := hs.filed hk'
  obtain rfl := Option.some.inj (hx.symm.trans hx')
  exact hf.key.symm.trans hf'.key

/-- the live indexes are those that a key leads to -/
theorem Sound.live_iff (hs : s.Sound) : i ∈ s.live ↔ ∃ k, s.registry.get? k = some i := by
  simp only [live, Table.values, List.mem_map, Table.get?_eq_some_iff hs.distinct]
  constructor
  · intro hi
    obtain ⟨e, he, rfl⟩ := hi
    exact ⟨e.1, e, he, BEq.rfl, rfl⟩
  · intro hi
    obtain ⟨k, e, he, -, rfl⟩ := hi
    exact ⟨e, he, rfl⟩

theorem Sound.live_nodup (hs : s.Sound) : s.live.Nodup := by
  refine List.pairwise_map.2 (List.Pairwise.imp_of_mem ?_ hs.distinct)
  intro e e' he he' hne hev
  have hk := (Table.get?_eq_some_iff hs.distinct).2 ⟨e, he, BEq.rfl, rfl⟩
  have hk' := (Table.get?_eq_some_iff hs.distinct).2 ⟨e', he', BEq.rfl, hev.symm⟩
  rw [hs.key_unique hk hk', beq_self_eq_true] at hne
  cases hne

theorem entriesUnder_some (hx : s.indexUnder k = some ix) : s.entriesUnder k = ix.contents.entries := by
  rw [entriesUnder, hx]

theorem entriesUnder_none (hx : s.indexUnder k = none) : s.entriesUnder k = [] := by
  rw [entriesUnder, hx]

theorem indexUnder_eq (hk : s.registry.get? k = some i) (hx : s.index? i = some ix) : s.indexUnder k = some ix := by
  rw [indexUnder, hk, Option.bind_some, hx]

theorem Sound.filed_of_indexUnder (hs : s.Sound) (hx : s.indexUnder k = some ix) : Filed k ix := by
  obtain ⟨i, hk, hi⟩ := Option.bind_eq_some_iff.1 hx
  obtain ⟨ix', hi', hf⟩ := hs.filed hk
  obtain rfl := Option.some.inj (hi.symm.trans hi')
  exact hf

/-- where there is an entry, there is a live index -/
theorem Sound.index_of_entry (hs : s.Sound) {e : Constant × EvaluatorId} (he : e ∈ s.entriesUnder k) :
    ∃ i ix, s.registry.get? k = some i ∧ s.index? i = some ix := by
  cases hk : s.registry.get? k with
  | none =>
    rw [entriesUnder_none (by rw [indexUnder, hk, Option.bind_none])] at he
    cases he
  | some i =>
    obtain ⟨ix, hx, -⟩ := hs.filed hk
    exact ⟨i, ix, rfl, hx⟩

/-! ## Evaluators -/

/-- the evaluator is a set of these handles -/
theorem evaluator?_of_handles? {ev : EvaluatorId} {set : HandleSet} (h : s.handles? ev = some set) :
    s.evaluator? ev = some (.handles set) := by
  unfold handles? at h
  split at h
  · rename_i hev
    rw [hev, Option.some.inj h]
  · cases h

theorem handles?_lt {ev : EvaluatorId} {set : HandleSet} (h : s.handles? ev = some set) :
    ev.place < s.evaluators.length := by
  unfold handles? evaluator? at h
  split at h
  · rename_i hev
    exact (List.getElem?_eq_some_iff.1 hev).1
  · cases h

theorem handles?_setEvaluator {ev : EvaluatorId} {old : HandleSet} (h : s.handles? ev = some old) (set : HandleSet)
    (ev' : EvaluatorId) :
    (s.setEvaluator ev (.handles set)).handles? ev' = if ev' = ev then some set else s.handles? ev' := by
  have hlt := handles?_lt h
  split
  · rename_i hev
    subst hev
    simp [handles?, evaluator?, setEvaluator, hlt]
  · rename_i hev
    have hne : ev.place ≠ ev'.place := fun hp => hev (by cases ev; cases ev'; simp_all)
    simp only [handles?, evaluator?, setEvaluator, List.getElem?_set_ne hne]

/-- the place of the next evaluator is vacant -/
theorem handles?_next : s.handles? ⟨s.evaluators.length⟩ = none := by
  simp [handles?, evaluator?]

theorem handles?_addEvaluator (set : HandleSet) (ev : EvaluatorId) :
    (s.addEvaluator (.handles set)).2.handles? ev =
      if ev = ⟨s.evaluators.length⟩ then some set else s.handles? ev := by
  split
  · rename_i hev
    subst hev
    simp [handles?, evaluator?, addEvaluator]
  · rename_i hev
    have hne : ev.place ≠ s.evaluators.length := fun hp => hev (by cases ev; simp_all)
    simp only [handles?, evaluator?, addEvaluator]
    rcases Nat.lt_or_gt_of_ne hne with hlt | hgt
    · rw [List.getElem?_append_left hlt]
    · rw [List.getElem?_eq_none (by simp; omega), List.getElem?_eq_none (by omega)]

/-- evaluators do not matter to whether a store is sound -/
theorem Sound.congr (hs : s.Sound) {s' : Store} (hc : s'.catalog = s.catalog) (hi : s'.indexes = s.indexes)
    (hr : s'.registry = s.registry) : s'.Sound := by
  obtain ⟨c, evs, ixs, r⟩ := s
  obtain ⟨c', evs', ixs', r'⟩ := s'
  cases hc; cases hi; cases hr
  exact ⟨hs.faithful, hs.distinct, fun hk => hs.filed hk⟩

/-! ## Indexes -/

theorem index?_lt (hx : s.index? i = some ix) : i.place < s.indexes.length :=
  (List.getElem?_eq_some_iff.1 hx).1

theorem index?_setIndex (hx : s.index? i = some ix) (new : Index EvaluatorId) (j : IndexId) :
    (s.setIndex i new).index? j = if j = i then some new else s.index? j := by
  have hlt := index?_lt hx
  split
  · rename_i hj
    subst hj
    simp [index?, setIndex, hlt]
  · rename_i hj
    have hne : i.place ≠ j.place := fun hp => hj (by cases i; cases j; simp_all)
    simp only [index?, setIndex, List.getElem?_set_ne hne]

section SetIndex

variable (hs : s.Sound) (hk : s.registry.get? k = some i) (hx : s.index? i = some ix)

include hs hk hx

/-- a change to the live index under a key is seen under this key only -/
theorem indexUnder_setIndex (new : Index EvaluatorId) (k' : String) :
    (s.setIndex i new).indexUnder k' = if k' = k then some new else s.indexUnder k' := by
  unfold indexUnder
  split
  · rename_i hk'
    rw [hk', show (s.setIndex i new).registry = s.registry from rfl, hk, Option.bind_some, index?_setIndex hx, if_pos rfl]
  · rename_i hne
    show (s.registry.get? k').bind _ = _
    cases hk' : s.registry.get? k' with
    | none => rfl
    | some j =>
      rw [Option.bind_some, Option.bind_some, index?_setIndex hx, if_neg]
      intro hj
      subst hj
      exact hne (hs.key_unique hk' hk)

theorem entriesUnder_setIndex (new : Index EvaluatorId) (k' : String) :
    (s.setIndex i new).entriesUnder k' = if k' = k then new.contents.entries else s.entriesUnder k' := by
  rw [entriesUnder, indexUnder_setIndex hs hk hx]
  by_cases hkk : k' = k
  · rw [if_pos hkk, if_pos hkk]
  · rw [if_neg hkk, if_neg hkk, entriesUnder]

theorem Sound.setIndex {new : Index EvaluatorId} (hf : Filed k new) : (s.setIndex i new).Sound := by
  refine ⟨hs.faithful, hs.distinct, ?_⟩
  intro k' j hk'
  rw [index?_setIndex hx]
  split
  · rename_i hj
    subst hj
    obtain rfl := hs.key_unique hk hk'
    exact ⟨new, rfl, hf⟩
  · exact hs.filed hk'

end SetIndex

/-! ## The registry -/

/-- a new index, live under a key -/
def enlist (s : Store) (k : String) (ix : Index EvaluatorId) : Store :=
  { s with indexes := s.indexes ++ [ix], registry := s.registry.insert k ⟨s.indexes.length⟩ }

/-- the index under a key is live no longer -/
def delist (s : Store) (k : String) : Store := { s with registry := s.registry.erase k }

theorem get?_enlist (s : Store) (k : String) (new : Index EvaluatorId) (k' : String) :
    (s.enlist k new).registry.get? k' = if k == k' then some ⟨s.indexes.length⟩ else s.registry.get? k' :=
  Table.get?_insert _ _ _ _

theorem get?_enlist_self (s : Store) (k : String) (new : Index EvaluatorId) :
    (s.enlist k new).registry.get? k = some ⟨s.indexes.length⟩ := by
  rw [get?_enlist, if_pos BEq.rfl]

theorem Sound.get?_delist (hs : s.Sound) (k k' : String) :
    (s.delist k).registry.get? k' = if k == k' then none else s.registry.get? k' := Table.get?_erase _ hs.distinct k k'

theorem index?_enlist (hx : s.index? i = some ix) (k : String) (new : Index EvaluatorId) :
    (s.enlist k new).index? i = some ix := by
  have hlt := index?_lt hx
  simp only [index?, enlist] at hx ⊢
  rw [List.getElem?_append_left hlt, hx]

theorem index?_enlist_self (s : Store) (k : String) (new : Index EvaluatorId) :
    (s.enlist k new).index? ⟨s.indexes.length⟩ = some new := by
  simp [index?, enlist]

theorem Sound.enlist (hs : s.Sound) {new : Index EvaluatorId} (hf : Filed k new) : (s.enlist k new).Sound := by
  refine ⟨hs.faithful, hs.distinct.insert _ _, ?_⟩
  intro k' j hk'
  rw [get?_enlist] at hk'
  split at hk'
  · rename_i hkk
    obtain rfl := eq_of_beq hkk
    obtain rfl := Option.some.inj hk'
    exact ⟨new, index?_enlist_self s k new, hf⟩
  · obtain ⟨ix, hx, hf'⟩ := hs.filed hk'
    exact ⟨ix, index?_enlist hx k new, hf'⟩

/-- an empty index under a key that led nowhere shows no entry -/
theorem entriesUnder_enlist (hs : s.Sound) (hk : s.registry.get? k = none) {new : Index EvaluatorId}
    (hnew : new.contents.entries = []) (k' : String) : (s.enlist k new).entriesUnder k' = s.entriesUnder k' := by
  by_cases hkk : k = k'
  · subst hkk
    rw [entriesUnder_some (indexUnder_eq (get?_enlist_self s k new) (index?_enlist_self s k new)), hnew, entriesUnder_none]
    rw [indexUnder, hk, Option.bind_none]
  · have hother : (s.enlist k new).registry.get? k' = s.registry.get? k' := by
      rw [get?_enlist, if_neg (by simpa using hkk)]
    cases hk' : s.registry.get? k' with
    | none => rw [entriesUnder_none, entriesUnder_none] <;> simp [indexUnder, hother, hk']
    | some j =>
      obtain ⟨ix, hx, -⟩ := hs.filed hk'
      rw [entriesUnder_some (indexUnder_eq hk' hx),
        entriesUnder_some (indexUnder_eq (hother.trans hk') (index?_enlist hx k new))]

theorem Sound.delist (hs : s.Sound) (k : String) : (s.delist k).Sound := by
  refine ⟨hs.faithful, hs.distinct.erase k, ?_⟩
  intro k' j hk'
  rw [hs.get?_delist] at hk'
  split at hk'
  · cases hk'
  · exact hs.filed hk'

/-- dropping an index without entries is not seen under any key -/
theorem entriesUnder_delist (hs : s.Sound) (hk : s.entriesUnder k = []) (k' : String) :
    (s.delist k).entriesUnder k' = s.entriesUnder k' := by
  by_cases hkk : k = k'
  · subst hkk
    rw [hk, entriesUnder_none]
    rw [indexUnder, hs.get?_delist, if_pos BEq.rfl, Option.bind_none]
  · have hx : (s.delist k).indexUnder k' = s.indexUnder k' := by
      rw [indexUnder, hs.get?_delist, if_neg (by simpa using hkk)]
      rfl
    rw [entriesUnder, hx, entriesUnder]

end Store

end EventMatching
