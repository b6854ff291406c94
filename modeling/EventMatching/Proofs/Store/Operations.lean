/-
What the operations on a store return, and which store they leave.

Each equation tells this of a whole operation, failures included, in terms of the changes to a store: `getOrCreate_eq` and
`writeExisting_eq` for the registry, `addHandle_eq` and `dropHandle_eq` for the sets of handles. Registering a filter and
taking it back are one after another of these, which `bind_ok` and `bind_error` join. On a sound store each comes down to
a few cases (`getOrCreate_cases`, `release_cases`, `addHandle_cases`, `dropHandle_cases`).
-/
import EventMatching.Store.Registration
import EventMatching.Proofs.Store.Sound

namespace EventMatching

open scoped List

namespace Action

open Store

variable {s : Store} {op : Operator} {l : Lookup} {c : Constant} {h : Handle} {i : IndexId} {ix : Index EvaluatorId}

/-- an operation goes on from where the first step has ended -/
theorem bind_ok {α β : Type} {x : Action α} {a : α} {s' : Store} (h : x s = .ok a s') (f : α → Action β) :
    (x >>= f) s = f a s' := by
  show EStateM.bind x f s = _
  rw [EStateM.bind, h]

theorem bind_error {α β : Type} {x : Action α} {e : Error} {s' : Store} (h : x s = .error e s') (f : α → Action β) :
    (x >>= f) s = .error e s' := by
  show EStateM.bind x f s = _
  rw [EStateM.bind, h]

/-- an operation that begins with a look at the store -/
theorem get_bind {β : Type} (f : Store → Action β) (s : Store) : (get >>= f) s = f s s := rfl

theorem build_eq {op : Operator} {l : Lookup} (hb : s.catalog.build op l = .ok ix) :
    build op l s = .ok ⟨s.indexes.length⟩ (s.addIndex ix).2 := by
  simp only [build, get_bind, hb]
  rfl

theorem build_eq_error {op : Operator} {l : Lookup} {e : Error} (hb : s.catalog.build op l = .error e) :
    build op l s = .error e s := by
  simp only [build, get_bind, hb]
  rfl

theorem create_eq (hb : s.catalog.build op l = .ok ix) :
    create op l s = .ok ⟨s.indexes.length⟩ (s.enlist (registryKey op l) ix) := bind_ok (build_eq hb) _

theorem create_eq_error {e : Error} (hb : s.catalog.build op l = .error e) : create op l s = .error e s :=
  bind_error (build_eq_error hb) _

theorem getOrCreate_eq (op : Operator) (l : Lookup) (s : Store) :
    getOrCreate op l s =
      match s.live? op l with
      | some i => .ok i s
      | none =>
        match s.catalog.build op l with
        | .ok ix => .ok ⟨s.indexes.length⟩ (s.enlist (registryKey op l) ix)
        | .error e => .error e s := by
  cases hlive : s.live? op l with
  | some i =>
    simp only [getOrCreate, get_bind, hlive]
    rfl
  | none =>
    simp only [getOrCreate, get_bind, hlive]
    cases hb : s.catalog.build op l with
    | ok ix => exact create_eq hb
    | error e => exact create_eq_error hb

theorem ensure_of_live (hlive : s.live? op l = some i) : ensure op l s = .ok () s := by
  simp only [ensure, get_bind, hlive]
  rfl

theorem ensure_of_create {s' : Store} (hlive : s.live? op l = none) (hc : create op l s = .ok i s') :
    ensure op l s = .ok () s' := by
  simp only [ensure, get_bind, hlive]
  show EStateM.map _ (create op l) s = _
  rw [EStateM.map, hc]

theorem ensure_of_create_error {e : Error} {s' : Store} (hlive : s.live? op l = none)
    (hc : create op l s = .error e s') : ensure op l s = .error e s' := by
  simp only [ensure, get_bind, hlive]
  show EStateM.map _ (create op l) s = _
  rw [EStateM.map, hc]

/-- **Both ways to an index agree**: writing goes on as if the index had been asked for first. It is live once it has been
seen to, so the error that it has vanished does not arise. -/
theorem writeIndex_eq {α : Type} (op : Operator) (l : Lookup) (body : IndexId → Action α) :
    writeIndex op l body = getOrCreate op l >>= body := by
  funext s
  unfold writeIndex
  cases hlive : s.live? op l with
  | some i =>
    have hfound : getOrCreate op l s = .ok i s := by rw [getOrCreate_eq, hlive]
    rw [bind_ok (ensure_of_live hlive), bind_ok hfound]
    simp only [get_bind, hlive]
  | none =>
    cases hb : s.catalog.build op l with
    | ok ix =>
      have hcreated : getOrCreate op l s = .ok ⟨s.indexes.length⟩ (s.enlist (registryKey op l) ix) := by
        rw [getOrCreate_eq, hlive, hb]
      have hensured : ensure op l s = .ok () (s.enlist (registryKey op l) ix) := ensure_of_create hlive (create_eq hb)
      have hlive' : (s.enlist (registryKey op l) ix).live? op l = some ⟨s.indexes.length⟩ := get?_enlist_self _ _ _
      rw [bind_ok hensured, bind_ok hcreated]
      simp only [get_bind, hlive']
    | error e =>
      have hrefused : getOrCreate op l s = .error e s := by rw [getOrCreate_eq, hlive, hb]
      have hensured : ensure op l s = .error e s := ensure_of_create_error hlive (create_eq_error hb)
      rw [bind_error hensured, bind_error hrefused]

theorem writeExisting_eq {α : Type} (op : Operator) (l : Lookup) (body : IndexId → Action α) (s : Store) :
    writeExisting op l body s =
      match s.live? op l with
      | none => .ok none s
      | some i =>
        match body i s with
        | .ok a s' => .ok (some a) s'
        | .error e s' => .error e s' := by
  simp only [writeExisting, get_bind]
  cases s.live? op l with
  | none => rfl
  | some i =>
    cases hb : body i s with
    | ok a s' =>
      simp only [hb]
      exact bind_ok hb _
    | error e s' =>
      simp only [hb]
      exact bind_error hb _

/-- a look-up in an index of the store -/
theorem get?_eq (hx : s.index? i = some ix) {found : Option EvaluatorId} (hg : ix.get? c = .ok found) :
    Action.get? i c s = .ok found s := by
  simp only [Action.get?, get_bind, hx, hg]
  rfl

theorem get?_eq_error (hx : s.index? i = some ix) {e : Error} (hg : ix.get? c = .error e) :
    Action.get? i c s = .error e s := by
  simp only [Action.get?, get_bind, hx, hg]
  rfl

/-- a change to an index of the store -/
theorem change_eq (hx : s.index? i = some ix) {f : Index EvaluatorId → Except Error (Index EvaluatorId)}
    {ix' : Index EvaluatorId} (hf : f ix = .ok ix') : change i f s = .ok () (s.setIndex i ix') := by
  simp only [change, get_bind, hx, hf]
  rfl

theorem change_eq_error (hx : s.index? i = some ix) {f : Index EvaluatorId → Except Error (Index EvaluatorId)}
    {e : Error} (hf : f ix = .error e) : change i f s = .error e s := by
  simp only [change, get_bind, hx, hf]
  rfl

theorem handleSet_eq {ev : EvaluatorId} {set : HandleSet} (hh : s.handles? ev = some set) :
    handleSet ev s = .ok set s := by
  simp only [handleSet, get_bind, hh]
  rfl

theorem handleSet_eq_error {ev : EvaluatorId} (hh : s.handles? ev = none) :
    handleSet ev s = .error .notHandleSet s := by
  simp only [handleSet, get_bind, hh]
  rfl

theorem addHandle_eq (c : Constant) (h : Handle) (hx : s.index? i = some ix) :
    addHandle c h i s =
      match ix.get? c with
      | .error e => .error e s
      | .ok (some ev) =>
        match s.handles? ev with
        | some set => .ok () (s.setEvaluator ev (.handles (set.insert h)))
        | none => .error .notHandleSet s
      | .ok none =>
        let s' := (s.addEvaluator (.handles (.singleton h))).2
        match ix.put c ⟨s.evaluators.length⟩ with
        | .ok ix' => .ok () (s'.setIndex i ix')
        | .error e => .error e s' := by
  unfold addHandle
  cases hg : ix.get? c with
  | error e => exact bind_error (get?_eq_error hx hg) _
  | ok found =>
    rw [bind_ok (get?_eq hx hg)]
    cases found with
    | some ev =>
      cases hh : s.handles? ev with
      | some set =>
        simp only [hh]
        exact bind_ok (handleSet_eq hh) _
      | none =>
        simp only [hh]
        exact bind_error (handleSet_eq_error hh) _
    | none =>
      have hx' : (s.addEvaluator (.handles (.singleton h))).2.index? i = some ix := hx
      cases hp : ix.put c ⟨s.evaluators.length⟩ with
      | ok ix' => exact change_eq hx' hp
      | error e => exact change_eq_error hx' hp

theorem dropHandle_eq (c : Constant) (h : Handle) (hx : s.index? i = some ix) :
    dropHandle c h i s =
      match ix.get? c with
      | .error e => .error e s
      | .ok (some ev) =>
        match s.handles? ev with
        | some set =>
          let s' := s.setEvaluator ev (.handles (set.erase h))
          if (set.erase h).isEmpty then
            match ix.remove c with
            | .ok ix' => .ok ix'.isEmpty (s'.setIndex i ix')
            | .error e => .error e s'
          else .ok ix.isEmpty s'
        | none => .error .notHandleSet s
      | .ok none => .ok ix.isEmpty s := by
  -- the answer is read off the index as it has become
  have hanswer : ∀ {s' : Store} {ix' : Index EvaluatorId}, s'.index? i = some ix' →
      (EStateM.Result.ok (((s'.index? i).map Index.isEmpty).getD true) s' : EStateM.Result Error Store Bool) =
        .ok ix'.isEmpty s' := by
    intro s' ix' hx'
    rw [hx']
    rfl
  unfold dropHandle
  cases hg : ix.get? c with
  | error e => exact bind_error (get?_eq_error hx hg) _
  | ok found =>
    rw [bind_ok (get?_eq hx hg)]
    cases found with
    | none => exact hanswer hx
    | some ev =>
      cases hh : s.handles? ev with
      | none =>
        simp only [hh]
        exact bind_error (handleSet_eq_error hh) _
      | some set =>
        have hx' : (s.setEvaluator ev (.handles (set.erase h))).index? i = some ix := hx
        simp only [hh]
        refine (bind_ok (handleSet_eq hh) _).trans ?_
        by_cases he : (set.erase h).isEmpty = true
        · simp only [he, if_true]
          cases hr : ix.remove c with
          | error e => exact bind_error (change_eq_error hx' hr) _
          | ok ix' =>
            have hself := (index?_setIndex hx' ix' i).trans (if_pos rfl)
            exact (bind_ok (change_eq hx' hr) _).trans (hanswer hself)
        · simp only [he]
          exact hanswer hx'

/-! ## On a sound store -/

variable {k : String}

/-- the live index is returned, or an empty one is built and becomes live, or it cannot be built -/
theorem getOrCreate_cases (hs : s.Sound) (op : Operator) (l : Lookup) :
    (∃ e, getOrCreate op l s = .error e s) ∨
      (∃ i, getOrCreate op l s = .ok i s ∧ s.registry.get? (registryKey op l) = some i) ∨
      ∃ ix, getOrCreate op l s = .ok ⟨s.indexes.length⟩ (s.enlist (registryKey op l) ix) ∧
        s.registry.get? (registryKey op l) = none ∧ ix.Fresh op l := by
  rw [getOrCreate_eq]
  cases hlive : s.live? op l with
  | some i => exact .inr (.inl ⟨i, rfl, hlive⟩)
  | none =>
    cases hb : s.catalog.build op l with
    | error e => exact .inl ⟨e, rfl⟩
    | ok ix => exact .inr (.inr ⟨ix, rfl, hlive, hs.faithful.build_ok hb⟩)

/-- a release changes nothing, or drops an index without entries -/
theorem release_cases (hs : s.Sound) (op : Operator) (l : Lookup) :
    s.release op l = (false, s) ∨
      (s.entriesUnder (registryKey op l) = [] ∧ s.release op l = (true, s.delist (registryKey op l))) := by
  unfold Store.release
  split
  · exact .inl rfl
  · rename_i i hlive
    split
    · rename_i hempty
      obtain ⟨ix, hx, -⟩ := hs.filed hlive
      refine .inr ⟨?_, rfl⟩
      rw [entriesUnder_some (indexUnder_eq hlive hx), ← Index.isEmpty_iff]
      simpa [hx] using hempty
    · exact .inl rfl

/-- a look-up finds the entry under the constant, or there is none -/
theorem entry_of_get? {ix : Index EvaluatorId} (hx : s.indexUnder k = some ix) (hf : ix.Sound)
    {found : Option EvaluatorId} (hg : ix.get? c = .ok found) :
    (∃ e ∈ s.entriesUnder k, e.1 == c ∧ found = some e.2) ∨ (Table.Lacks (s.entriesUnder k) c ∧ found = none) := by
  rw [Index.get?_ok hf hg, Store.entriesUnder_some hx]
  cases hc : ix.contents.get? c with
  | none => exact .inr ⟨Table.get?_eq_none_iff.1 hc, rfl⟩
  | some ev =>
    obtain ⟨e, he, hec, rfl⟩ := Table.mem_of_get? hc
    exact .inl ⟨e, he, hec, rfl⟩

/-- adding a handle fails and changes nothing; or it joins the set under its constant; or it is put into a new set, which
the index refuses, or takes under the constant, that had none -/
theorem addHandle_cases (hs : s.Sound) (hk : s.registry.get? k = some i) (c : Constant) (h : Handle) :
    (∃ err, addHandle c h i s = .error err s) ∨
    (∃ e ∈ s.entriesUnder k, ∃ set, e.1 == c ∧ s.handles? e.2 = some set ∧
      addHandle c h i s = .ok () (s.setEvaluator e.2 (.handles (set.insert h)))) ∨
    (∃ err, addHandle c h i s = .error err (s.addEvaluator (.handles (.singleton h))).2) ∨
    ∃ ix ix', s.index? i = some ix ∧ ix.Serves ix' ∧ ix'.Sound ∧ c == c ∧ Table.Lacks (s.entriesUnder k) c ∧
      ix'.contents.entries ~ (c, ⟨s.evaluators.length⟩) :: s.entriesUnder k ∧
      addHandle c h i s = .ok () ((s.addEvaluator (.handles (.singleton h))).2.setIndex i ix') := by
  obtain ⟨ix, hx, hf⟩ := hs.filed hk
  have hunder := indexUnder_eq hk hx
  rw [addHandle_eq c h hx]
  cases hg : ix.get? c with
  | error err => exact .inl ⟨err, rfl⟩
  | ok found =>
    rcases entry_of_get? hunder hf.sound hg with ⟨e, he, hec, rfl⟩ | ⟨hlacks, rfl⟩
    · cases hset : s.handles? e.2 with
      | none => exact .inl ⟨.notHandleSet, by simp only [hset]⟩
      | some set => exact .inr (.inl ⟨e, he, set, hec, hset, by simp only [hset]⟩)
    · cases hp : ix.put c ⟨s.evaluators.length⟩ with
      | error err => exact .inr (.inr (.inl ⟨err, rfl⟩))
      | ok ix' =>
        obtain ⟨hsound, hserves, hcc, hperm⟩ := Index.put_ok hf.sound hp
        refine .inr (.inr (.inr ⟨ix, ix', hx, hserves, hsound, hcc, hlacks, ?_, rfl⟩))
        rw [entriesUnder_some hunder] at hlacks ⊢
        rw [Table.insert_of_lacks hlacks] at hperm
        exact hperm.trans List.perm_append_comm

/-- dropping a handle fails and changes nothing; or there is no set under its constant; or it leaves a set that has
others, or one that it was alone in, which goes -/
theorem dropHandle_cases (hs : s.Sound) (hk : s.registry.get? k = some i) (c : Constant) (h : Handle) :
    (∃ err, dropHandle c h i s = .error err s) ∨
    (Table.Lacks (s.entriesUnder k) c ∧ ∃ emptied, dropHandle c h i s = .ok emptied s) ∨
    (∃ e ∈ s.entriesUnder k, ∃ set, e.1 == c ∧ s.handles? e.2 = some set ∧ (set.erase h).toList ≠ [] ∧
      ∃ emptied, dropHandle c h i s = .ok emptied (s.setEvaluator e.2 (.handles (set.erase h)))) ∨
    ∃ e ∈ s.entriesUnder k, ∃ set, e.1 == c ∧ s.handles? e.2 = some set ∧ (set.erase h).toList = [] ∧
      ∃ ix ix', s.index? i = some ix ∧ ix.Serves ix' ∧ ix'.Sound ∧
        ix'.contents.entries = (s.entriesUnder k).filter (fun e => !(e.1 == c)) ∧
        dropHandle c h i s = .ok ix'.isEmpty ((s.setEvaluator e.2 (.handles (set.erase h))).setIndex i ix') := by
  obtain ⟨ix, hx, hf⟩ := hs.filed hk
  have hunder := indexUnder_eq hk hx
  rw [dropHandle_eq c h hx]
  cases hg : ix.get? c with
  | error err => exact .inl ⟨err, rfl⟩
  | ok found =>
    rcases entry_of_get? hunder hf.sound hg with ⟨e, he, hec, rfl⟩ | ⟨hlacks, rfl⟩
    · cases hset : s.handles? e.2 with
      | none => exact .inl ⟨.notHandleSet, by simp only [hset]⟩
      | some set =>
        by_cases hnil : (set.erase h).toList = []
        · -- a look-up under the constant has succeeded, so the removal does
          obtain ⟨ix', hr⟩ := Index.remove_of_get? hg
          obtain ⟨hsound, hserves, hrest⟩ := Index.remove_ok hf.sound hr
          refine .inr (.inr (.inr ⟨e, he, set, hec, hset, hnil, ix, ix', hx, hserves, hsound, ?_, ?_⟩))
          · rw [entriesUnder_some hunder, hrest]
          · simp only [hset, HandleSet.isEmpty, hnil, List.isEmpty_nil, if_true, hr]
        · have hne : (set.erase h).isEmpty = false := by simpa [HandleSet.isEmpty] using hnil
          exact .inr (.inr (.inl ⟨e, he, set, hec, hset, hnil, ix.isEmpty, by simp only [hset, hne]; rfl⟩))
    · exact .inr (.inl ⟨hlacks, ix.isEmpty, rfl⟩)

end Action
end EventMatching
