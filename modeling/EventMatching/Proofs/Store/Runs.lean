/-
Runs of calls on a store, against the filters that they register.

A `Session` is a store with the list of the filters that are registered: a call that registers a filter adds it to the
list, one that takes a filter back removes it, and all other calls and all calls that fail leave the list alone. Every
call keeps a session `Coherent` (`step_coherent`): the store is sound, and the list is a ledger of what is stored. So in
any order of calls no filter is lost, doubled or left behind (`filters_kept`).
-/
import EventMatching.Proofs.Store.Ledger
import EventMatching.Proofs.Store.Operations

namespace EventMatching

open scoped List

/-- a call of a client; clients may interleave, so a release can come at any moment -/
inductive Call where
  | register (op : Operator) (l : Lookup) (c : Constant) (h : Handle)
  | unregister (op : Operator) (l : Lookup) (c : Constant) (h : Handle)
  /-- takes a filter back, but does not drop its index -/
  | drop (op : Operator) (l : Lookup) (c : Constant) (h : Handle)
  | getOrCreate (op : Operator) (l : Lookup)
  | release (op : Operator) (l : Lookup)

/-- a store, and the filters that are registered -/
structure Session where
  store : Store
  filters : List Filter

namespace Session

/-- an empty store, with indexes by area or without -/
def start (areas : Bool) : Session := ⟨⟨if areas then .spatial else .basic, [], [], .empty⟩, []⟩

/-- the session after a call with this result, the filters being `done` if it succeeded and `undone` if it failed -/
def after {α : Type} (done undone : List Filter) : EStateM.Result Error Store α → Session
  | .ok _ s => ⟨s, done⟩
  | .error _ s => ⟨s, undone⟩

def step (x : Session) : Call → Session
  | .register op l c h => after (⟨registryKey op l, c, h⟩ :: x.filters) x.filters (Action.register op l c h x.store)
  | .unregister op l c h =>
    after (Filter.without x.filters ⟨registryKey op l, c, h⟩) x.filters (Action.unregister op l c h x.store)
  | .drop op l c h =>
    after (Filter.without x.filters ⟨registryKey op l, c, h⟩) x.filters
      (Action.writeExisting op l (Action.dropHandle c h) x.store)
  | .getOrCreate op l => after x.filters x.filters (Action.getOrCreate op l x.store)
  | .release op l => after x.filters x.filters (Action.release op l x.store)

def run (x : Session) (calls : List Call) : Session := calls.foldl step x

/-! ## The invariant -/

/-- the store is sound, and the filters are a ledger of what is stored -/
structure Coherent (s : Store) (fs : List Filter) : Prop where
  sound : s.Sound
  ledger : Ledger s.entriesUnder s.handles? fs

/-- the store that an operation leaves is coherent with the filters `done` if it succeeded, `undone` if it failed -/
def Leaves {α : Type} (done undone : List Filter) : EStateM.Result Error Store α → Prop
  | .ok _ s => Coherent s done
  | .error _ s => Coherent s undone

theorem after_coherent {α : Type} {done undone : List Filter} {r : EStateM.Result Error Store α}
    (h : Leaves done undone r) : Coherent (after done undone r).store (after done undone r).filters := by
  cases r with
  | ok a s => exact h
  | error e s => exact h

theorem start_coherent (areas : Bool) : Coherent (start areas).store (start areas).filters := by
  refine ⟨⟨?_, .nil, fun hk => nomatch hk⟩, .nil⟩
  cases areas with
  | true => exact Catalog.spatial_faithful
  | false => exact Catalog.basic_faithful

variable {s : Store} {fs : List Filter} {k : String} {i : IndexId} {c : Constant} {h : Handle}

/-! ## Adding and dropping a handle -/

theorem Coherent.addHandle (hs : Coherent s fs) (hk : s.registry.get? k = some i) (c : Constant) (h : Handle) :
    Leaves (⟨k, c, h⟩ :: fs) fs (Action.addHandle c h i s) := by
  have hadd := Store.handles?_addEvaluator (s := s) (.singleton h)
  have hsound : (s.addEvaluator (.handles (.singleton h))).2.Sound := hs.sound.congr rfl rfl rfl
  rcases Action.addHandle_cases hs.sound hk c h with
    ⟨err, hr⟩ | ⟨e, he, set, hec, hset, hr⟩ | ⟨err, hr⟩ | ⟨ix, ix', hx, hserves, hix', hcc, hlacks, hperm, hr⟩
  · rw [hr]
    exact hs
  · rw [hr]
    exact ⟨hs.sound.congr rfl rfl rfl, hs.ledger.join he hec hset (Store.handles?_setEvaluator hset _)⟩
  · -- the new evaluator stays in the store although nothing leads to it
    rw [hr]
    refine ⟨hsound, hs.ledger.congr (fun _ => rfl) ?_⟩
    intro k' e he
    obtain ⟨set, hset, -⟩ := hs.ledger.filled he
    rw [hadd, if_neg]
    intro hev
    rw [hev, Store.handles?_next] at hset
    cases hset
  · rw [hr]
    have hf := hs.sound.filed_of_indexUnder (Store.indexUnder_eq hk hx)
    have hentries := Store.entriesUnder_setIndex hsound hk hx ix'
    refine ⟨hsound.setIndex hk hx (hf.serves hserves hix'), hs.ledger.open hlacks hcc Store.handles?_next ?_ ?_ hadd⟩
    · rw [hentries, if_pos rfl]
      exact hperm
    · intro k' hne
      rw [hentries, if_neg hne]
      rfl

theorem Coherent.dropHandle (hs : Coherent s fs) (hk : s.registry.get? k = some i) (c : Constant) (h : Handle) :
    Leaves (Filter.without fs ⟨k, c, h⟩) fs (Action.dropHandle c h i s) := by
  rcases Action.dropHandle_cases hs.sound hk c h with
    ⟨err, hr⟩ | ⟨hlacks, emptied, hr⟩ | ⟨e, he, set, hec, hset, hne, emptied, hr⟩ |
      ⟨e, he, set, hec, hset, hnil, ix, ix', hx, hserves, hix', hrest, hr⟩
  · rw [hr]
    exact hs
  · rw [hr]
    exact ⟨hs.sound, hs.ledger.miss hlacks⟩
  · rw [hr]
    exact ⟨hs.sound.congr rfl rfl rfl, hs.ledger.leave he hec hset hne (Store.handles?_setEvaluator hset _)⟩
  · rw [hr]
    have hsound : (s.setEvaluator e.2 (.handles (set.erase h))).Sound := hs.sound.congr rfl rfl rfl
    have hf := hs.sound.filed_of_indexUnder (Store.indexUnder_eq hk hx)
    have hentries := Store.entriesUnder_setIndex hsound hk hx ix'
    refine ⟨hsound.setIndex hk hx (hf.serves hserves hix'), hs.ledger.close he hec hset hnil ?_ ?_ ?_⟩
    · rw [hentries, if_pos rfl]
      exact hrest
    · intro k' hne
      rw [hentries, if_neg hne]
      rfl
    · intro ev hev
      exact (Store.handles?_setEvaluator hset _ ev).trans (if_neg hev)

/-! ## Calls -/

/-- the live index for an operator and a lookup comes from a call that fails only without a trace -/
theorem Coherent.getOrCreate (hs : Coherent s fs) (op : Operator) (l : Lookup) :
    (∃ e, Action.getOrCreate op l s = .error e s) ∨
      ∃ i s', Action.getOrCreate op l s = .ok i s' ∧ s'.registry.get? (registryKey op l) = some i ∧ Coherent s' fs := by
  rcases Action.getOrCreate_cases hs.sound op l with ⟨e, hr⟩ | ⟨i, hr, hk⟩ | ⟨ix, hr, hnone, hfresh⟩
  · exact .inl ⟨e, hr⟩
  · exact .inr ⟨i, s, hr, hk, hs⟩
  · refine .inr ⟨_, _, hr, Store.get?_enlist_self _ _ _, hs.sound.enlist (.of_fresh hfresh), ?_⟩
    exact hs.ledger.congr (Store.entriesUnder_enlist hs.sound hnone hfresh.empty) fun _ _ _ => rfl

theorem Coherent.release (hs : Coherent s fs) (op : Operator) (l : Lookup) : Coherent (s.release op l).2 fs := by
  rcases Action.release_cases hs.sound op l with hr | ⟨hnil, hr⟩
  · rw [hr]
    exact hs
  · rw [hr]
    exact ⟨hs.sound.delist _, hs.ledger.congr (Store.entriesUnder_delist hs.sound hnil) fun _ _ _ => rfl⟩

theorem Coherent.register (hs : Coherent s fs) (op : Operator) (l : Lookup) (c : Constant) (h : Handle) :
    Leaves (⟨registryKey op l, c, h⟩ :: fs) fs (Action.register op l c h s) := by
  rw [Action.register, Action.writeIndex_eq]
  rcases hs.getOrCreate op l with ⟨e, hr⟩ | ⟨i, s', hr, hk, hs'⟩
  · rw [Action.bind_error hr]
    exact hs
  · rw [Action.bind_ok hr]
    exact hs'.addHandle hk c h

/-- a filter is taken back from the live index, or there is none and the filter was not registered -/
theorem Coherent.drop (hs : Coherent s fs) (op : Operator) (l : Lookup) (c : Constant) (h : Handle) :
    Leaves (Filter.without fs ⟨registryKey op l, c, h⟩) fs (Action.writeExisting op l (Action.dropHandle c h) s) := by
  rw [Action.writeExisting_eq]
  cases hlive : s.live? op l with
  | none =>
    have hlacks : Table.Lacks (s.entriesUnder (registryKey op l)) c := by
      have hget : s.registry.get? (registryKey op l) = none := hlive
      rw [Store.entriesUnder_none (by rw [Store.indexUnder, hget, Option.bind_none])]
      exact Table.lacks_nil c
    exact ⟨hs.sound, hs.ledger.miss hlacks⟩
  | some i =>
    have hdrop := hs.dropHandle hlive c h
    cases hr : Action.dropHandle c h i s with
    | ok emptied s' =>
      rw [hr] at hdrop
      simp only [hr]
      exact hdrop
    | error e s' =>
      rw [hr] at hdrop
      simp only [hr]
      exact hdrop

theorem Coherent.unregister (hs : Coherent s fs) (op : Operator) (l : Lookup) (c : Constant) (h : Handle) :
    Leaves (Filter.without fs ⟨registryKey op l, c, h⟩) fs (Action.unregister op l c h s) := by
  have hdrop := hs.drop op l c h
  unfold Action.unregister
  cases hr : Action.writeExisting op l (Action.dropHandle c h) s with
  | error e s' =>
    rw [hr] at hdrop
    rw [Action.bind_error hr]
    exact hdrop
  | ok emptied s' =>
    rw [hr] at hdrop
    rw [Action.bind_ok hr]
    rcases emptied with _ | emptied
    · exact hdrop
    · cases emptied with
      | false => exact hdrop
      | true => exact Coherent.release hdrop op l

/-- **Every call keeps the filters and the store together.** -/
theorem step_coherent {x : Session} (hx : Coherent x.store x.filters) (call : Call) :
    Coherent (x.step call).store (x.step call).filters := by
  cases call with
  | register op l c h => exact after_coherent (hx.register op l c h)
  | unregister op l c h => exact after_coherent (hx.unregister op l c h)
  | drop op l c h => exact after_coherent (hx.drop op l c h)
  | getOrCreate op l =>
    apply after_coherent
    rcases hx.getOrCreate op l with ⟨e, hr⟩ | ⟨i, s', hr, -, hs'⟩
    · rw [hr]
      exact hx
    · rw [hr]
      exact hs'
  | release op l => exact hx.release op l

theorem run_coherent {x : Session} (hx : Coherent x.store x.filters) (calls : List Call) :
    Coherent (x.run calls).store (x.run calls).filters := by
  induction calls generalizing x with
  | nil => exact hx
  | cons call calls ih => exact ih (step_coherent hx call)

/-! ## Main result -/

/-- **No filter is lost, doubled or left behind.** After any calls on an empty store, for any key and constant: the
entries of the live index under the key that are under an equal constant are at most one, and one just if a filter is
registered there; its evaluator is the set of just the handles that are registered, and is behind no other entry of any
index; a look-up in the index finds that evaluator, or nothing if there is no entry, and fails only if there is none.
Each entry is under its own constant, so there are no others than those. -/
theorem filters_kept (areas : Bool) (calls : List Call) (k : String) (c : Constant) :
    let x := (start areas).run calls
    let s := x.store
    let found := (s.entriesUnder k).filter fun e => e.1 == c
    found.length ≤ 1 ∧
    (found ≠ [] ↔ ∃ h, x.filters.contains ⟨k, c, h⟩ = true) ∧
    (∀ e ∈ found, ∃ set, s.evaluator? e.2 = some (.handles set) ∧
      ∀ h, h ∈ set.toList ↔ x.filters.contains ⟨k, c, h⟩ = true) ∧
    (∀ e ∈ found, ∀ k', ∀ e' ∈ s.entriesUnder k', e'.2 = e.2 → k' = k ∧ e' = e) ∧
    (∀ ix ev?, s.indexUnder k = some ix → ix.get? c = .ok ev? → ev? = found.head?.map (·.2)) ∧
    (∀ ix err, s.indexUnder k = some ix → ix.get? c = .error err → found = []) ∧
    (∀ e ∈ s.entriesUnder k, e.1 == e.1) := by
  intro x s found
  have hs : Coherent s x.filters := run_coherent (start_coherent areas) calls
  have hl := hs.ledger
  have hmem : ∀ {e}, e ∈ found ↔ e ∈ s.entriesUnder k ∧ e.1 == c := List.mem_filter
  have hfilter : found.map (·.2) = ((⟨s.entriesUnder k⟩ : Table Constant EvaluatorId).get? c).toList :=
    Table.filter_key (t := ⟨s.entriesUnder k⟩) (hl.single k) c
  have hset : ∀ e ∈ found, ∃ set, s.handles? e.2 = some set ∧ set.toList ≠ [] ∧
      ∀ h, h ∈ set.toList ↔ x.filters.contains ⟨k, c, h⟩ = true := by
    intro e he
    obtain ⟨he, hec⟩ := hmem.1 he
    exact hl.set_of he hec
  have honce : found.length ≤ 1 := by
    calc found.length
      _ = (found.map (·.2)).length := by rw [List.length_map]
      _ = ((⟨s.entriesUnder k⟩ : Table Constant EvaluatorId).get? c).toList.length := by rw [hfilter]
      _ ≤ 1 := Option.length_toList_le
  refine ⟨honce, ⟨?_, ?_⟩, ?_, ?_, ?_, ?_, ?_⟩
  · intro hne
    obtain ⟨e, he⟩ := List.exists_mem_of_ne_nil found hne
    obtain ⟨set, -, hne, hiff⟩ := hset e he
    obtain ⟨h, hm⟩ := List.exists_mem_of_ne_nil set.toList hne
    exact ⟨h, (hiff h).1 hm⟩
  · intro hex
    obtain ⟨h, hc⟩ := hex
    obtain ⟨e, he, hec, -⟩ := hl.listed.1 hc
    exact List.ne_nil_of_mem (hmem.2 ⟨he, hec⟩)
  · intro e he
    obtain ⟨set, hset, -, hiff⟩ := hset e he
    exact ⟨set, Store.evaluator?_of_handles? hset, hiff⟩
  · intro e he k' e' he' hev
    exact hl.unshared he' (hmem.1 he).1 hev
  · intro ix ev? hx hg
    have hf := hs.sound.filed_of_indexUnder hx
    rw [← List.head?_map, hfilter, Option.head?_toList, Index.get?_ok hf.sound hg, Store.entriesUnder_some hx]
  · intro ix err hx hg
    have hlacks := Index.get?_error hg
    rw [← Store.entriesUnder_some hx] at hlacks
    exact hlacks.filter_eq_nil
  · intro e he
    exact hl.findable he

/-- reads the position of an event on the square -/
def position : Lookup := .area (.properties "px" "py" "pw" "ph" Quadtree.square)

/-- two filters on one value of a property, and one on a rectangle -/
def threeFilters : List Call :=
  [.register .equal (.field (.property "kind")) (.value (.text "bus")) ⟨2, 7⟩,
    .register .area position (.rect ⟨.ofInt 10, .ofInt 10, .ofInt 5, .ofInt 5⟩) ⟨1, 8⟩,
    .register .equal (.field (.property "kind")) (.value (.text "bus")) ⟨1, 5⟩]

/-- of the two filters on one value one is taken back; the entry stays, for the other filter alone -/
theorem filters_kept_on_square :
    let kind := Lookup.field (.property "kind")
    let bus := Constant.value (.text "bus")
    let x := (start true).run (threeFilters ++ [.drop .equal kind bus ⟨2, 7⟩])
    let found := (x.store.entriesUnder (registryKey .equal kind)).filter fun e => e.1 == bus
    found.length = 1 ∧ ∃ e ∈ found, ∃ set, x.store.evaluator? e.2 = some (.handles set) ∧
      ⟨1, 5⟩ ∈ set.toList ∧ ⟨2, 7⟩ ∉ set.toList ∧ ⟨1, 8⟩ ∉ set.toList := by
  intro kind bus x found
  let key := registryKey .equal kind
  have hrun : x.filters.contains ⟨key, bus, ⟨1, 5⟩⟩ = true ∧ x.filters.contains ⟨key, bus, ⟨2, 7⟩⟩ = false ∧
      x.filters.contains ⟨key, bus, ⟨1, 8⟩⟩ = false := by decide +kernel
  obtain ⟨hstays, htaken, hother⟩ := hrun
  obtain ⟨honce, hused, hset, -⟩ := filters_kept true (threeFilters ++ [.drop .equal kind bus ⟨2, 7⟩]) key bus
  have hne : found ≠ [] := hused.2 ⟨⟨1, 5⟩, hstays⟩
  obtain ⟨e, he⟩ := List.exists_mem_of_ne_nil found hne
  obtain ⟨set, hev, hiff⟩ := hset e he
  refine ⟨Nat.le_antisymm honce (List.length_pos_iff.2 hne), e, he, set, hev, (hiff _).2 hstays, ?_, ?_⟩
  · rw [hiff, htaken]
    exact Bool.false_ne_true
  · rw [hiff, hother]
    exact Bool.false_ne_true

end Session
end EventMatching
