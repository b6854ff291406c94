/-
Clients that keep the indexes they are given.

An index that a client has got stays in its hands when the registry drops it. A `Client` is a store with the indexes
got from it so far, and an `Access` a call on the registry, or one that stores or removes through such an index. What is
done to an index while the registry holds it may be any `Work`, which has the calls of that one index only. So an access
touches one index at most, which may be one that it has just made live (`Writes`), or drops one (`step_cases`). All else
follows from these cases: where indexes are filed, that a key leads to one index until it is released (`run_keeps`,
`reaches_unique`), that a new index is in nobody's hands (`create_spec`), and that what has been released is of no
consequence to the registry any more (`run_not_live`). Together that is `registry_of_accesses`.
-/
import EventMatching.Proofs.Store.Lifetime
import EventMatching.Proofs.Store.Matching

namespace EventMatching

open Store

/-! ## Touching one index -/

namespace Store

variable {s t u : Store} {i : IndexId} {k : String}

/-- of all indexes the stores differ in one at most, by storing and removing; catalog and registry are the same -/
structure Touched (i : IndexId) (s t : Store) : Prop where
  catalog : t.catalog = s.catalog
  registry : t.registry = s.registry
  count : t.indexes.length = s.indexes.length
  others : ∀ j, j ≠ i → t.index? j = s.index? j
  changed : ∀ ix, s.index? i = some ix → ∃ calls, t.index? i = some (ix.run calls)

/-- evaluators may change in any way -/
theorem Touched.of_indexes (hc : t.catalog = s.catalog) (hr : t.registry = s.registry) (hi : t.indexes = s.indexes) :
    Touched i s t := by
  have hsame (j : IndexId) : t.index? j = s.index? j := by rw [index?, index?, hi]
  exact ⟨hc, hr, congrArg List.length hi, fun j _ => hsame j, fun ix hx => ⟨[], (hsame i).trans hx⟩⟩

theorem Touched.refl (i : IndexId) (s : Store) : Touched i s s := .of_indexes rfl rfl rfl

theorem Touched.trans (h : Touched i s t) (h' : Touched i t u) : Touched i s u where
  catalog := h'.catalog.trans h.catalog
  registry := h'.registry.trans h.registry
  count := h'.count.trans h.count
  others j hj := (h'.others j hj).trans (h.others j hj)
  changed ix hx := by
    obtain ⟨calls, hx'⟩ := h.changed ix hx
    obtain ⟨calls', hx''⟩ := h'.changed _ hx'
    refine ⟨calls ++ calls', ?_⟩
    rw [hx'', Index.run, Index.run, Index.run, List.foldl_append]

/-- a store stays sound as one of its indexes is touched, be it live or not -/
theorem Touched.sound (h : Touched i s t) (hs : s.Sound) : t.Sound where
  faithful := h.catalog ▸ hs.faithful
  distinct := h.registry ▸ hs.distinct
  filed := by
    intro k j hk
    rw [h.registry] at hk
    obtain ⟨ix, hx, hf⟩ := hs.filed hk
    by_cases hj : j = i
    · subst hj
      obtain ⟨calls, hx'⟩ := h.changed ix hx
      obtain ⟨hsound, hserves⟩ := hf.sound.run calls
      exact ⟨_, hx', hf.serves hserves hsound⟩
    · exact ⟨ix, (h.others j hj).trans hx, hf⟩

theorem Touched.live_eq (h : Touched i s t) : t.live = s.live := by rw [live, live, h.registry]

/-! ## An index that is not live -/

section NotLive

variable (h : Touched i s t) (hi : i ∉ s.live)

include h hi

theorem Touched.index?_live {j : IndexId} (hj : j ∈ s.live) : t.index? j = s.index? j := by
  apply h.others
  rintro rfl
  exact hi hj

theorem Touched.release_eq (hs : s.Sound) (op : Operator) (l : Lookup) : (t.release op l).1 = (s.release op l).1 := by
  have hlive : t.live? op l = s.live? op l := by rw [live?, live?, h.registry]
  unfold Store.release
  rw [hlive]
  cases hk : s.live? op l with
  | none => rfl
  | some j =>
    simp only [h.index?_live hi (hs.live_iff.2 ⟨_, hk⟩)]
    split <;> rfl

variable (hev : t.evaluators = s.evaluators) (hnested : ∀ ev, s.evaluator? ev ≠ some (.nested i)) (event : Event)

include hev hnested

omit hi in
/-- evaluators do the same if none passes the event on to the index -/
theorem Touched.evaluate_eq (depth : Nat) (ev : EvaluatorId) :
    t.evaluate event depth ev = s.evaluate event depth ev := by
  have hsame (ev : EvaluatorId) : t.evaluator? ev = s.evaluator? ev := by rw [evaluator?, evaluator?, hev]
  induction depth generalizing ev with
  | zero =>
    rw [evaluate, evaluate, hsame]
  | succ depth ih =>
    rw [evaluate, evaluate, hsame]
    cases hfound : s.evaluator? ev with
    | none => rfl
    | some e =>
      cases e with
      | handles set => rfl
      | single handle error => rfl
      | nested j =>
        have hne : j ≠ i := by
          rintro rfl
          exact hnested ev hfound
        have hrun : t.evaluate event depth = s.evaluate event depth := funext ih
        simp only [h.others j hne]
        cases s.index? j with
        | none => rfl
        | some ix => exact congrArg (ix.visit event) hrun

theorem Touched.matchEvent_eq : t.matchEvent event = s.matchEvent event := by
  rw [matchEvent, matchEvent, h.live_eq, matchIndexes, matchIndexes]
  apply forM_congr
  intro j hj
  have hrun : t.evaluate event (s.indexes.length - 1) = s.evaluate event (s.indexes.length - 1) :=
    funext (h.evaluate_eq hev hnested event _)
  rw [matchIndex, matchIndex, h.index?_live hi hj, h.count, hrun]

end NotLive

end Store

namespace Action

variable {α β : Type} {i : IndexId}

/-- the operation touches no index but the given one -/
def Confined (i : IndexId) (x : Action α) : Prop := ∀ s, Touched i s (storeAfter (x s))

theorem Confined.pure (i : IndexId) (a : α) : Confined i (pure a : Action α) := fun s => .refl i s

theorem Confined.bind {x : Action α} {f : α → Action β} (hx : Confined i x) (hf : ∀ a, Confined i (f a)) :
    Confined i (x >>= f) := by
  intro s
  have hfirst := hx s
  cases hr : x s with
  | ok a s' =>
    rw [hr] at hfirst
    rw [bind_ok hr]
    exact hfirst.trans (hf a s')
  | error e s' =>
    rw [hr] at hfirst
    rw [bind_error hr]
    exact hfirst

/-- a look at the store -/
theorem Confined.get : Confined i (get : Action Store) := fun s => .refl i s

theorem Confined.throw (e : Error) : Confined i (throw e : Action α) := fun s => .refl i s

/-- a change to evaluators -/
theorem Confined.modify {f : Store → Store} (hc : ∀ s, (f s).catalog = s.catalog)
    (hr : ∀ s, (f s).registry = s.registry) (hi : ∀ s, (f s).indexes = s.indexes) :
    Confined i (modify f : Action Unit) := fun s => .of_indexes (hc s) (hr s) (hi s)

/-- stores or removes in an index -/
def apply (i : IndexId) : Index.Change EvaluatorId → Action Unit
  | .put c ev => put i c ev
  | .remove c => remove i c

theorem apply_eq (i : IndexId) (call : Index.Change EvaluatorId) : apply i call = change i fun ix => ix.apply call := by
  cases call <;> rfl

theorem confined_apply (i : IndexId) (call : Index.Change EvaluatorId) : Confined i (apply i call) := by
  intro s
  rw [apply_eq]
  cases hx : s.index? i with
  | none =>
    have hmissed : change i (fun ix => ix.apply call) s = .ok () s := by
      simp only [change, get_bind, hx]
      rfl
    rw [hmissed]
    exact .refl i s
  | some ix =>
    cases hcall : ix.apply call with
    | error e =>
      rw [change_eq_error hx hcall]
      exact .refl i s
    | ok ix' =>
      rw [change_eq hx hcall]
      have hindex := index?_setIndex hx ix'
      refine ⟨rfl, rfl, List.length_set, fun j hj => (hindex j).trans (if_neg hj), ?_⟩
      intro old hold
      obtain rfl := Option.some.inj (hx.symm.trans hold)
      have hstep : ix.run [call] = ix' := by
        rw [Index.run, List.foldl_cons, List.foldl_nil, Index.step, hcall]
        rfl
      exact ⟨[call], by rw [hstep]; exact (hindex i).trans (if_pos rfl)⟩

theorem confined_get? (i : IndexId) (c : Constant) : Confined i (Action.get? i c) := by
  refine .bind .get fun s => ?_
  split
  · exact .pure i _
  · split
    · exact .pure i _
    · exact .throw _

theorem confined_handleSet (i : IndexId) (ev : EvaluatorId) : Confined i (handleSet ev) := by
  refine .bind .get fun s => ?_
  split
  · exact .pure i _
  · exact .throw _

theorem confined_setEvaluator (i : IndexId) (ev : EvaluatorId) (e : Evaluator) :
    Confined i (modify fun s => s.setEvaluator ev e) := .modify (fun _ => rfl) (fun _ => rfl) fun _ => rfl

theorem confined_addHandle (c : Constant) (h : Handle) (i : IndexId) : Confined i (addHandle c h i) := by
  refine .bind (confined_get? i c) fun found => ?_
  cases found with
  | some ev => exact .bind (confined_handleSet i ev) fun set => confined_setEvaluator i ev _
  | none =>
    have hnew : Confined i (newEvaluator (.handles (.singleton h))) := fun s => .of_indexes rfl rfl rfl
    exact .bind hnew fun ev => confined_apply i (.put c ev)

theorem confined_dropHandle (c : Constant) (h : Handle) (i : IndexId) : Confined i (dropHandle c h i) := by
  refine .bind (confined_get? i c) fun found => ?_
  have hanswer : Confined i (do return (((← get).index? i).map Index.isEmpty).getD true : Action Bool) :=
    .bind .get fun s => .pure i _
  cases found with
  | none => exact hanswer
  | some ev =>
    refine .bind (confined_handleSet i ev) fun set => .bind (confined_setEvaluator i ev _) fun _ => ?_
    split
    · exact .bind (confined_apply i (.remove c)) fun _ => hanswer
    · exact hanswer

/-- what an operation returns, if it does not fail -/
def returned : EStateM.Result Error Store α → Option α
  | .ok a _ => some a
  | .error _ _ => none

end Action

/-- work on an index while the registry holds it: whatever is done with the calls of that one index, reading anything
and changing evaluators -/
structure Work (α : Type) where
  body : IndexId → Action α
  confined : ∀ i, Action.Confined i (body i)

namespace Work

/-- registering a filter is such work -/
def addHandle (c : Constant) (h : Handle) : Work Unit := ⟨Action.addHandle c h, Action.confined_addHandle c h⟩

/-- and so is taking one back -/
def dropHandle (c : Constant) (h : Handle) : Work Bool := ⟨Action.dropHandle c h, Action.confined_dropHandle c h⟩

end Work

/-! ## Accesses -/

/-- a call on the registry, or on an index that it has given out -/
inductive Access where
  | getOrCreate (op : Operator) (l : Lookup)
  | get (op : Operator) (l : Lookup)
  | writeIndex (op : Operator) (l : Lookup) {α : Type} (work : Work α)
  | writeExisting (op : Operator) (l : Lookup) {α : Type} (work : Work α)
  | release (op : Operator) (l : Lookup)
  /-- stores or removes through an index that was got before -/
  | through (i : IndexId) (call : Index.Change EvaluatorId)
  /-- evaluators are made and changed by others -/
  | evaluators (change : List Evaluator → List Evaluator)

/-- the store, and the indexes got from it so far -/
structure Client where
  store : Store
  held : List IndexId

namespace Access

/-- the key of the registry that a call is about -/
def key? : Access → Option String
  | getOrCreate op l | get op l | writeIndex op l _ | writeExisting op l _ | release op l => some (registryKey op l)
  | through _ _ | evaluators _ => none

/-- the index that a call on the registry reaches: the one that it returns, or the one that it lets work be done on -/
def reaches (s : Store) : Access → Option IndexId
  | getOrCreate op l => Action.returned (Action.getOrCreate op l s)
  | get op l => s.live? op l
  | writeIndex op l _ => Action.returned (Action.writeIndex op l pure s)
  | writeExisting op l _ => (Action.returned (Action.writeExisting op l pure s)).join
  | release _ _ | through _ _ | evaluators _ => none

/-- the call is a release that drops the index under the key -/
def frees (s : Store) (k : String) : Access → Bool
  | release op l => registryKey op l == k && (s.release op l).1
  | _ => false

end Access

namespace Client

/-- an empty store, with indexes by area or without, of which nothing has been got -/
def start (areas : Bool) : Client := ⟨(Session.start areas).store, []⟩

/-- the client after a call; one through an index that was never got does nothing -/
def step (x : Client) : Access → Client
  | .getOrCreate op l =>
    let r := Action.getOrCreate op l x.store
    ⟨Action.storeAfter r, (Action.returned r).toList ++ x.held⟩
  | .get op l => { x with held := (x.store.live? op l).toList ++ x.held }
  | .writeIndex op l work => { x with store := Action.storeAfter (Action.writeIndex op l work.body x.store) }
  | .writeExisting op l work => { x with store := Action.storeAfter (Action.writeExisting op l work.body x.store) }
  | .release op l => { x with store := (x.store.release op l).2 }
  | .through i call => if i ∈ x.held then { x with store := Action.storeAfter (Action.apply i call x.store) } else x
  | .evaluators change => { x with store := { x.store with evaluators := change x.store.evaluators } }

def run (x : Client) (accesses : List Access) : Client := accesses.foldl step x

/-- none of the calls drops the index under the key -/
def keeps (x : Client) (k : String) : List Access → Bool
  | [] => true
  | a :: rest => !a.frees x.store k && (x.step a).keeps k rest

end Client

/-! ## What an access can do -/

namespace Store

variable {s t : Store} {i : IndexId} {k : String}

/-- the stores differ in one index, which may have become live under a key that led nowhere before -/
inductive Writes (s : Store) : Store → Prop
  | touched {t : Store} (i : IndexId) : Touched i s t → Writes s t
  | created {t : Store} {k : String} {ix : Index EvaluatorId} : s.registry.get? k = none → Filed k ix →
      Touched ⟨s.indexes.length⟩ (s.enlist k ix) t → Writes s t

theorem Writes.sound (h : Writes s t) (hs : s.Sound) : t.Sound := by
  cases h with
  | touched i ht => exact ht.sound hs
  | created _ hf ht => exact ht.sound (hs.enlist hf)

theorem Writes.catalog (h : Writes s t) : t.catalog = s.catalog := by
  cases h with
  | touched i ht => exact ht.catalog
  | created _ _ ht => exact ht.catalog

theorem Writes.count_le (h : Writes s t) : s.indexes.length ≤ t.indexes.length := by
  cases h with
  | touched i ht => exact Nat.le_of_eq ht.count.symm
  | @created k ix _ _ ht =>
    have hcount : (s.enlist k ix).indexes.length = s.indexes.length + 1 := List.length_append
    rw [ht.count, hcount]
    exact Nat.le_succ _

/-- a live index stays live under its key -/
theorem Writes.keeps (h : Writes s t) (hk : s.registry.get? k = some i) : t.registry.get? k = some i := by
  cases h with
  | touched j ht => rwa [ht.registry]
  | @created k' ix hnone _ ht =>
    rw [ht.registry, get?_enlist, if_neg]
    · exact hk
    · intro hkk
      rw [eq_of_beq hkk, hk] at hnone
      cases hnone

/-- an index that is there and not live does not become live -/
theorem Writes.not_live (h : Writes s t) (hs : s.Sound) (hplace : i.place < s.indexes.length) (hi : i ∉ s.live) :
    i ∉ t.live := by
  cases h with
  | touched j ht => rwa [ht.live_eq]
  | @created k' ix _ hf ht =>
    rw [ht.live_eq]
    intro hlive
    obtain ⟨k, hk⟩ := (hs.enlist hf).live_iff.1 hlive
    rw [get?_enlist] at hk
    split at hk
    · -- the new index has a place of its own
      obtain rfl := Option.some.inj hk
      exact Nat.lt_irrefl _ hplace
    · exact hi (hs.live_iff.2 ⟨k, hk⟩)

end Store

namespace Client

variable {x : Client} {i : IndexId} {k : String} {op : Operator} {l : Lookup}

theorem writes_getOrCreate (hs : x.store.Sound) (op : Operator) (l : Lookup) :
    Writes x.store (Action.storeAfter (Action.getOrCreate op l x.store)) := by
  rcases Action.getOrCreate_cases hs op l with ⟨e, hr⟩ | ⟨i, hr, -⟩ | ⟨ix, hr, hnone, hfresh⟩ <;> rw [hr]
  · exact .touched ⟨0⟩ (.refl _ _)
  · exact .touched i (.refl i _)
  · exact .created hnone (.of_fresh hfresh) (.refl _ _)

theorem writes_writeIndex {α : Type} (hs : x.store.Sound) (op : Operator) (l : Lookup) (work : Work α) :
    Writes x.store (Action.storeAfter (Action.writeIndex op l work.body x.store)) := by
  rw [Action.writeIndex_eq]
  rcases Action.getOrCreate_cases hs op l with ⟨e, hr⟩ | ⟨i, hr, -⟩ | ⟨ix, hr, hnone, hfresh⟩
  · rw [Action.bind_error hr]
    exact .touched ⟨0⟩ (.refl _ _)
  · rw [Action.bind_ok hr]
    exact .touched i (work.confined i _)
  · rw [Action.bind_ok hr]
    exact .created hnone (.of_fresh hfresh) (work.confined _ _)

theorem writes_writeExisting {α : Type} (s : Store) (op : Operator) (l : Lookup) (work : Work α) :
    Writes s (Action.storeAfter (Action.writeExisting op l work.body s)) := by
  rw [Action.writeExisting_eq]
  cases hlive : s.live? op l with
  | none => exact .touched ⟨0⟩ (.refl _ _)
  | some i =>
    have hwork := work.confined i s
    cases hr : work.body i s <;> rw [hr] at hwork <;> simp only [hr] <;> exact .touched i hwork

/-- **What an access can do**: it touches one index, which it may have made live, or it drops one from the registry. -/
theorem step_cases (hs : x.store.Sound) (a : Access) :
    Writes x.store (x.step a).store ∨
      ∃ k, a.frees x.store k = true ∧ (x.step a).store = x.store.delist k := by
  cases a with
  | getOrCreate op l => exact .inl (writes_getOrCreate hs op l)
  | get op l => exact .inl (.touched ⟨0⟩ (.refl _ _))
  | writeIndex op l work => exact .inl (writes_writeIndex hs op l work)
  | writeExisting op l work => exact .inl (writes_writeExisting x.store op l work)
  | release op l =>
    rw [step]
    rcases Action.release_cases hs op l with hr | ⟨-, hr⟩ <;> rw [hr]
    · exact .inl (.touched ⟨0⟩ (.refl _ _))
    · exact .inr ⟨registryKey op l, by rw [Access.frees, hr, BEq.rfl, Bool.true_and], rfl⟩
  | through i call =>
    left
    rw [step]
    split
    · exact .touched i (Action.confined_apply i call x.store)
    · exact .touched i (.refl i _)
  | evaluators change => exact .inl (.touched ⟨0⟩ (.of_indexes rfl rfl rfl))

/-! ## The invariant -/

/-- the store is sound, and what was got from it is there -/
structure Holds (x : Client) : Prop where
  sound : x.store.Sound
  placed : ∀ i ∈ x.held, i.place < x.store.indexes.length

theorem start_holds (areas : Bool) : (start areas).Holds :=
  ⟨(Session.start_coherent areas).sound, fun _ hi => nomatch hi⟩

/-- a live index has its place in a sound store -/
theorem lt_of_live? {s : Store} (hs : s.Sound) (hlive : s.live? op l = some i) : i.place < s.indexes.length := by
  obtain ⟨ix, hx, -⟩ := hs.filed hlive
  exact index?_lt hx

theorem release_indexes (s : Store) (op : Operator) (l : Lookup) : (s.release op l).2.indexes = s.indexes := by
  unfold Store.release
  split
  · rfl
  · split <;> rfl

theorem step_count_le (hs : x.store.Sound) (a : Access) :
    x.store.indexes.length ≤ (x.step a).store.indexes.length := by
  rcases step_cases hs a with hw | ⟨k, -, hstore⟩
  · exact hw.count_le
  · have hsame : (x.step a).store.indexes = x.store.indexes := by
      rw [hstore]
      rfl
    exact Nat.le_of_eq (congrArg List.length hsame.symm)

/-- what a call gives out is in the store -/
theorem step_held (hx : x.Holds) (a : Access) (hi : i ∈ (x.step a).held) :
    i.place < (x.step a).store.indexes.length := by
  have hold (h : i ∈ x.held) : i.place < (x.step a).store.indexes.length :=
    Nat.lt_of_lt_of_le (hx.placed i h) (step_count_le hx.sound a)
  cases a with
  | getOrCreate op l =>
    rcases List.mem_append.1 hi with hnew | h
    · rw [step]
      rcases Action.getOrCreate_cases hx.sound op l with ⟨e, hr⟩ | ⟨j, hr, hk⟩ | ⟨ix, hr, -, -⟩
      · rw [hr] at hnew
        cases hnew
      · rw [hr] at hnew ⊢
        obtain rfl := List.mem_singleton.1 hnew
        exact lt_of_live? hx.sound hk
      · rw [hr] at hnew ⊢
        obtain rfl := List.mem_singleton.1 hnew
        exact index?_lt (index?_enlist_self _ _ ix)
    · exact hold h
  | get op l =>
    rcases List.mem_append.1 hi with hnew | h
    · exact lt_of_live? hx.sound (Option.mem_toList.1 hnew)
    · exact hold h
  | through j call =>
    rw [step] at hi
    split at hi <;> exact hold hi
  | writeIndex | writeExisting | release | evaluators => exact hold hi

theorem step_holds (hx : x.Holds) (a : Access) : (x.step a).Holds := by
  refine ⟨?_, fun i hi => step_held hx a hi⟩
  rcases step_cases hx.sound a with hw | ⟨k, -, hstore⟩
  · exact hw.sound hx.sound
  · rw [hstore]
    exact hx.sound.delist k

theorem run_holds (hx : x.Holds) (accesses : List Access) : (x.run accesses).Holds := by
  induction accesses generalizing x with
  | nil => exact hx
  | cons a accesses ih => exact ih (step_holds hx a)

theorem run_catalog (hx : x.Holds) (accesses : List Access) : (x.run accesses).store.catalog = x.store.catalog := by
  induction accesses generalizing x with
  | nil => rfl
  | cons a accesses ih =>
    refine (ih (step_holds hx a)).trans ?_
    rcases step_cases hx.sound a with hw | ⟨k, -, hstore⟩
    · exact hw.catalog
    · rw [hstore]
      rfl

/-! ## One index until it is released -/

/-- a key leads to its index until a release drops that -/
theorem step_keeps (hx : x.Holds) {a : Access} (hk : x.store.registry.get? k = some i)
    (ha : a.frees x.store k = false) : (x.step a).store.registry.get? k = some i := by
  rcases step_cases hx.sound a with hw | ⟨k', hfrees, hstore⟩
  · exact hw.keeps hk
  · rw [hstore, hx.sound.get?_delist, if_neg]
    · exact hk
    · intro hkk
      rw [eq_of_beq hkk, ha] at hfrees
      cases hfrees

theorem run_keeps (hx : x.Holds) {accesses : List Access} (hk : x.store.registry.get? k = some i)
    (ha : x.keeps k accesses = true) : (x.run accesses).store.registry.get? k = some i := by
  induction accesses generalizing x with
  | nil => exact hk
  | cons a accesses ih =>
    rw [keeps, Bool.and_eq_true, Bool.not_eq_true'] at ha
    exact ih (step_holds hx a) (step_keeps hx hk ha.1) ha.2

/-- what an access reaches is live under its key, or it becomes so now -/
theorem reaches_cases (hs : x.store.Sound) {a : Access} (hkey : a.key? = some k) (hr : a.reaches x.store = some i) :
    x.store.registry.get? k = some i ∨
      (x.store.registry.get? k = none ∧ (x.step a).store.registry.get? k = some i) := by
  cases a with
  | getOrCreate op l =>
    obtain rfl := Option.some.inj hkey
    rw [Access.reaches] at hr
    rw [step]
    rcases Action.getOrCreate_cases hs op l with ⟨e, hg⟩ | ⟨j, hg, hk⟩ | ⟨ix, hg, hnone, -⟩ <;> rw [hg] at hr
    · cases hr
    · obtain rfl := Option.some.inj hr
      exact .inl hk
    · obtain rfl := Option.some.inj hr
      rw [hg]
      exact .inr ⟨hnone, get?_enlist_self _ _ ix⟩
  | get op l =>
    obtain rfl := Option.some.inj hkey
    exact .inl hr
  | writeIndex op l work =>
    obtain rfl := Option.some.inj hkey
    rw [Access.reaches, Action.writeIndex_eq] at hr
    rw [step, Action.writeIndex_eq]
    rcases Action.getOrCreate_cases hs op l with ⟨e, hg⟩ | ⟨j, hg, hk⟩ | ⟨ix, hg, hnone, -⟩
    · rw [Action.bind_error hg] at hr
      cases hr
    · rw [Action.bind_ok hg] at hr
      obtain rfl := Option.some.inj hr
      exact .inl hk
    · rw [Action.bind_ok hg] at hr
      obtain rfl := Option.some.inj hr
      have hworked := work.confined ⟨x.store.indexes.length⟩ (x.store.enlist (registryKey op l) ix)
      refine .inr ⟨hnone, ?_⟩
      rw [Action.bind_ok hg]
      show (Action.storeAfter _).registry.get? _ = _
      rw [hworked.registry]
      exact get?_enlist_self _ _ ix
  | writeExisting op l work =>
    obtain rfl := Option.some.inj hkey
    rw [Access.reaches, Action.writeExisting_eq] at hr
    cases hlive : x.store.live? op l with
    | none =>
      rw [hlive] at hr
      cases hr
    | some j =>
      rw [hlive] at hr
      obtain rfl : j = i := Option.some.inj hr
      exact .inl hlive
  | release op l => cases hr
  | through j call => cases hr
  | evaluators change => cases hr

theorem frees_of_reaches {s : Store} {a : Access} (hr : a.reaches s = some i) : a.frees s k = false := by
  cases a with
  | release op l => cases hr
  | getOrCreate | get | writeIndex | writeExisting | through | evaluators => rfl

/-- **Between releases all calls for a key reach one index.** -/
theorem reaches_unique (hx : x.Holds) {a b : Access} {between : List Access} {j : IndexId} (ha : a.key? = some k)
    (hb : b.key? = some k) (hi : a.reaches x.store = some i) (hkeeps : (x.step a).keeps k between = true)
    (hj : b.reaches ((x.step a).run between).store = some j) : i = j := by
  have hfirst : (x.step a).store.registry.get? k = some i := by
    rcases reaches_cases hx.sound ha hi with hk | ⟨-, hk⟩
    · exact step_keeps hx hk (frees_of_reaches hi)
    · exact hk
  have hmiddle := run_keeps (step_holds hx a) hfirst hkeeps
  rcases reaches_cases (run_holds (step_holds hx a) between).sound hb hj with hk | ⟨hnone, -⟩
  · exact Option.some.inj (hmiddle.symm.trans hk)
  · rw [hmiddle] at hnone
    cases hnone

/-! ## Released indexes -/

theorem step_not_live (hx : x.Holds) (a : Access) (hplace : i.place < x.store.indexes.length) (hi : i ∉ x.store.live) :
    i ∉ (x.step a).store.live := by
  rcases step_cases hx.sound a with hw | ⟨k', -, hstore⟩
  · exact hw.not_live hx.sound hplace hi
  · rw [hstore]
    intro hlive
    obtain ⟨k, hk⟩ := (hx.sound.delist _).live_iff.1 hlive
    rw [hx.sound.get?_delist] at hk
    split at hk
    · cases hk
    · exact hi (hx.sound.live_iff.2 ⟨k, hk⟩)

/-- **An index that has been released never becomes live again.** -/
theorem run_not_live (hx : x.Holds) (accesses : List Access) (hplace : i.place < x.store.indexes.length)
    (hi : i ∉ x.store.live) : i ∉ (x.run accesses).store.live := by
  induction accesses generalizing x with
  | nil => exact hi
  | cons a accesses ih =>
    exact ih (step_holds hx a) (Nat.lt_of_lt_of_le hplace (step_count_le hx.sound a)) (step_not_live hx a hplace hi)

/-! ## One call -/

/-- a release tells whether an index without constants was live under the key, and then drops that and no other -/
theorem release_spec {s : Store} (hs : s.Sound) (op : Operator) (l : Lookup) :
    ((s.release op l).1 = true ↔ ∃ i ix, s.live? op l = some i ∧ s.index? i = some ix ∧ ix.size = 0) ∧
    (s.release op l).2 = if (s.release op l).1 then s.delist (registryKey op l) else s := by
  unfold Store.release
  cases hlive : s.live? op l with
  | none => simp
  | some i =>
    obtain ⟨ix, hx, -⟩ := hs.filed hlive
    have hget : ((s.index? i).map Index.isEmpty).getD false = ix.isEmpty := by
      rw [hx]
      rfl
    have hsize : (∃ j jx, some i = some j ∧ s.index? j = some jx ∧ jx.size = 0) ↔ ix.isEmpty = true := by
      rw [← Index.size_eq_zero_iff]
      constructor
      · rintro ⟨j, jx, hj, hjx, hsize⟩
        obtain rfl := Option.some.inj hj
        obtain rfl := Option.some.inj (hx.symm.trans hjx)
        exact hsize
      · intro hsize
        exact ⟨i, ix, rfl, hx, hsize⟩
    rw [hsize]
    simp only [hget]
    cases ix.isEmpty <;> exact ⟨Iff.rfl, rfl⟩

/-- where it is said that an index can be built, it is -/
theorem build_of_admits {areas : Bool} (h : Catalog.admits areas op l = true) :
    ∃ ix, (start areas).store.catalog.build op l = .ok ix := by
  cases op with
  | equal =>
    cases l with
    | field f => cases areas <;> exact ⟨_, rfl⟩
    | area a => cases h
  | area =>
    cases l with
    | field f => cases h
    | area a =>
      obtain ⟨rfl, hvalid⟩ := Bool.and_eq_true_iff.1 h
      have hnew := Quadtree.new_of_validate (V := EvaluatorId) hvalid
      refine ⟨.area a (.empty a.region), ?_⟩
      show Index.ofArea a = _
      rw [Index.ofArea, hnew]

/-- what is made under a key that leads nowhere is new, empty and as it was asked for -/
theorem create_spec {areas : Bool} (hx : x.Holds) (hcatalog : x.store.catalog = (start areas).store.catalog)
    (hlive : x.store.live? op l = none) :
    (Catalog.admits areas op l = false → ∃ e, Action.getOrCreate op l x.store = .error e x.store) ∧
    (Catalog.admits areas op l = true → ∃ i t ix, Action.getOrCreate op l x.store = .ok i t ∧ i ∉ x.held ∧
      x.store.index? i = none ∧ t.live? op l = some i ∧ t.index? i = some ix ∧ ix.size = 0 ∧ ix.operator = op ∧
      ix.lookup = l ∧ ∀ k, k ≠ registryKey op l → t.registry.get? k = x.store.registry.get? k) := by
  have heq := Action.getOrCreate_eq op l x.store
  rw [hlive, hcatalog] at heq
  constructor
  · intro hnot
    cases hb : (start areas).store.catalog.build op l with
    | error e =>
      rw [hb] at heq
      exact ⟨e, heq⟩
    | ok ix =>
      have hadmits : Catalog.admits areas op l = true := Session.admits_of_build hb
      rw [hnot] at hadmits
      cases hadmits
  · intro hadmits
    obtain ⟨ix, hb⟩ := build_of_admits hadmits
    rw [hb] at heq
    have hfresh : ix.Fresh op l := hx.sound.faithful.build_ok (by rw [hcatalog, hb])
    refine ⟨_, _, ix, heq, ?_, ?_, get?_enlist_self _ _ ix, index?_enlist_self _ _ ix, ?_, hfresh.operator,
      hfresh.lookup, ?_⟩
    · intro hheld
      exact Nat.lt_irrefl _ (hx.placed _ hheld)
    · exact List.getElem?_eq_none (Nat.le_refl _)
    · rw [Index.size_eq, hfresh.empty]
      rfl
    · intro k hk
      rw [get?_enlist, if_neg]
      exact fun hkk => hk (eq_of_beq hkk).symm

theorem apply_evaluators (s : Store) (i : IndexId) (call : Index.Change EvaluatorId) :
    (Action.storeAfter (Action.apply i call s)).evaluators = s.evaluators := by
  rw [Action.apply_eq]
  simp only [Action.change, Action.get_bind]
  cases s.index? i with
  | none => rfl
  | some ix => cases hcall : ix.apply call <;> simp only [hcall] <;> rfl

/-! ## Main result -/

/-- **The registry is coherent, whoever keeps its indexes.** After any accesses of a client to an empty store:

- an index is registered under the key of its own operator and lookup;
- any two calls for one key that reach an index, with no successful release of that key between them, reach the same
  one;
- writing to an index is asking for it and then working on it, with the same answer, error and store, whatever the work;
- a release succeeds just if an index without constants is registered under the key; it then drops that and no other,
  and changes no index;
- under a key that leads nowhere, asking for an index fails if none can be built, and changes nothing; otherwise it
  gives an empty one that nobody had before, which serves what was asked for;
- an index that a client has got and that is not registered any more never is again; whatever is stored in it and
  removed from it, after any further accesses, the registry leads to the same indexes, as many and as they were, and
  releases and, unless an evaluator passes events on to that index, matches end as they would have. -/
theorem registry_of_accesses (areas : Bool) (accesses : List Access) :
    let x := (start areas).run accesses
    let s := x.store
    (∀ k i, s.registry.get? k = some i → ∃ ix, s.index? i = some ix ∧ k = registryKey ix.operator ix.lookup) ∧
    (∀ (a b : Access) (between : List Access) (k : String) (i j : IndexId), a.key? = some k → b.key? = some k →
      a.reaches s = some i → (x.step a).keeps k between = true →
      b.reaches ((x.step a).run between).store = some j → i = j) ∧
    (∀ {α : Type} (op : Operator) (l : Lookup) (body : IndexId → Action α),
      Action.writeIndex op l body s = (Action.getOrCreate op l >>= body) s) ∧
    (∀ op l, ((s.release op l).1 = true ↔ ∃ i ix, s.live? op l = some i ∧ s.index? i = some ix ∧ ix.size = 0) ∧
      (s.release op l).2.indexes = s.indexes ∧ ∀ k, (s.release op l).2.registry.get? k =
        if (s.release op l).1 = true ∧ k = registryKey op l then none else s.registry.get? k) ∧
    (∀ op l, s.live? op l = none →
      (Catalog.admits areas op l = false → ∃ e, Action.getOrCreate op l s = .error e s) ∧
      (Catalog.admits areas op l = true → ∃ i t ix, Action.getOrCreate op l s = .ok i t ∧ i ∉ x.held ∧
        s.index? i = none ∧ t.live? op l = some i ∧ t.index? i = some ix ∧ ix.size = 0 ∧ ix.operator = op ∧
        ix.lookup = l ∧ ∀ k, k ≠ registryKey op l → t.registry.get? k = s.registry.get? k)) ∧
    ∀ i ∈ x.held, i ∉ s.live → ∀ later : List Access,
      let t := (x.run later).store
      i ∉ t.live ∧ ∀ call : Index.Change EvaluatorId,
        let u := Action.storeAfter (Action.apply i call t)
        (∀ op l, u.live? op l = t.live? op l) ∧ u.liveCount = t.liveCount ∧ (∀ j ∈ t.live, u.index? j = t.index? j) ∧
        (∀ op l, (u.release op l).1 = (t.release op l).1) ∧
        ((∀ ev, t.evaluator? ev ≠ some (.nested i)) → ∀ event, u.matchEvent event = t.matchEvent event) := by
  intro x s
  have hx : x.Holds := run_holds (start_holds areas) accesses
  have hcatalog : s.catalog = (start areas).store.catalog := run_catalog (start_holds areas) accesses
  refine ⟨?_, ?_, ?_, ?_, fun op l => create_spec hx hcatalog, ?_⟩
  · intro k i hk
    obtain ⟨ix, hix, hf⟩ := hx.sound.filed hk
    exact ⟨ix, hix, hf.key.symm⟩
  · intro a b between k i j ha hb hi hkeeps hj
    exact reaches_unique hx ha hb hi hkeeps hj
  · intro α op l body
    rw [Action.writeIndex_eq]
  · intro op l
    obtain ⟨hiff, hstore⟩ := release_spec hx.sound op l
    refine ⟨hiff, release_indexes s op l, ?_⟩
    intro k
    rw [hstore]
    cases (s.release op l).1 with
    | false => rfl
    | true =>
      have hkey : (registryKey op l == k) = true ↔ k = registryKey op l := by
        rw [beq_iff_eq]
        exact eq_comm
      rw [if_pos rfl, hx.sound.get?_delist]
      simp only [hkey, true_and]
      rfl
  · intro i hheld hi later
    have hplace := hx.placed i hheld
    have hdead := run_not_live hx later hplace hi
    refine ⟨hdead, ?_⟩
    intro call
    have htouched := Action.confined_apply i call (x.run later).store
    refine ⟨?_, ?_, ?_, htouched.release_eq hdead (run_holds hx later).sound, ?_⟩
    · intro op l
      rw [live?, live?, htouched.registry]
    · rw [liveCount, liveCount, htouched.registry]
    · intro j hj
      exact htouched.index?_live hdead hj
    · intro hnested event
      exact htouched.matchEvent_eq hdead (apply_evaluators _ i call) hnested event

/-- a client gets an index in which there is one constant, and keeps it as that is removed and the index released -/
def keptBeyond : List Access :=
  [.writeIndex .equal (.field (.property "a")) (.addHandle (.value .null) ⟨1, 1⟩), .get .equal (.field (.property "a")),
    .release .equal (.field (.property "a")),
    .writeExisting .equal (.field (.property "a")) (.dropHandle (.value .null) ⟨1, 1⟩),
    .release .equal (.field (.property "a"))]

/-- the client writes to its index in vain: the next one under its key is another, which all later calls for the key reach
until it is released too, and which stays as it is -/
theorem registry_beyond_release :
    let a := Lookup.field (.property "a")
    let x := (start true).run keptBeyond
    let t := (x.run [.getOrCreate .equal a]).store
    let u := Action.storeAfter (Action.apply ⟨0⟩ (.put (.value .null) ⟨0⟩) t)
    x.held = [⟨0⟩] ∧ x.store.live = [] ∧ t.live = [⟨1⟩] ∧
      (∀ (accesses : List Access) (j : IndexId), (x.step (.getOrCreate .equal a)).keeps (registryKey .equal a) accesses = true →
        (Access.get .equal a).reaches ((x.step (.getOrCreate .equal a)).run accesses).store = some j → j = ⟨1⟩) ∧
      u.indexes.map Index.size = [1, 0] ∧ u.live? .equal a = t.live? .equal a ∧ u.index? ⟨1⟩ = t.index? ⟨1⟩ ∧
      ∀ event, u.matchEvent event = t.matchEvent event := by
  intro a x t u
  obtain ⟨-, hunique, -, -, -, hkept⟩ := registry_of_accesses true keptBeyond
  have hheld : x.held = [⟨0⟩] := rfl
  have hlive : x.store.live = [] := rfl
  have hlive' : t.live = [⟨1⟩] := rfl
  obtain ⟨-, hput⟩ := hkept ⟨0⟩ (hheld ▸ List.mem_cons_self) (hlive ▸ List.not_mem_nil) [.getOrCreate .equal a]
  obtain ⟨hregistry, -, hothers, -, hmatch⟩ := hput (.put (.value .null) ⟨0⟩)
  have hnested : ∀ ev, t.evaluator? ev ≠ some (.nested ⟨0⟩) := by
    intro ev hev
    have hmem := List.mem_of_getElem? hev
    have hall : Evaluator.nested ⟨0⟩ ∉ t.evaluators := by decide +kernel
    exact hall hmem
  refine ⟨hheld, hlive, hlive', ?_, rfl, hregistry .equal a, hothers ⟨1⟩ (hlive' ▸ List.mem_cons_self), hmatch hnested⟩
  intro accesses j hkeeps hj
  exact (hunique (.getOrCreate .equal a) (.get .equal a) accesses _ ⟨1⟩ j rfl rfl rfl hkeeps hj).symm

end Client

end EventMatching
