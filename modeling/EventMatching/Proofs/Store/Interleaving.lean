/-
Matching while clients go on calling.

A `Reading` matches an event against a list of indexes that was taken at its start, one index a turn; between its turns
clients make any calls. So an index may have been emptied and released, and another may be live under its key, when its
turn comes. A reading that nobody disturbs is `matchIndexes` (`undisturbed`). An index that is visited late reports just
the filters that are `Due` at that moment, none if it has been released (`visit_reports`); so over all turns each filter is
reported at most once, and one that stays registered exactly once (`reports_of_interleaving`).
-/
import EventMatching.Proofs.Store.Evolution
import EventMatching.Proofs.Store.Matching

namespace EventMatching

open scoped List

/-- a match in progress: the session as it is now, the indexes that are still to be visited, the handles found so far, and
the error that has ended it -/
structure Reading where
  session : Session
  pending : List IndexId
  found : List Handle
  failure : Option Error := none

/-- who goes next -/
inductive Turn where
  | client (call : Call)
  | reader

namespace Reading

/-- one call of a client, or the visit of one index, which ends the match if it fails -/
def step (event : Event) (r : Reading) : Turn → Reading
  | .client call => { r with session := r.session.step call }
  | .reader =>
    match r.pending with
    | [] => r
    | i :: rest =>
      match r.session.store.matchIndex event i r.found with
      | .ok _ found => { r with pending := rest, found }
      | .error e found => { r with pending := [], found, failure := some e }

def run (event : Event) (r : Reading) (turns : List Turn) : Reading := turns.foldl (step event) r

theorem run_nil (event : Event) (r : Reading) : r.run event [] = r := rfl

theorem run_cons (event : Event) (r : Reading) (turn : Turn) (turns : List Turn) :
    r.run event (turn :: turns) = (r.step event turn).run event turns := rfl

theorem run_idle {r : Reading} (h : r.pending = []) (event : Event) (n : Nat) : r.run event (.replicate n .reader) = r := by
  induction n with
  | zero => rfl
  | succ n ih =>
    have hstep : r.step event .reader = r := by rw [step, h]
    rw [List.replicate_succ, run_cons, hstep, ih]

/-- **A reading that nobody disturbs is a match against its indexes in turn.** -/
theorem undisturbed (x : Session) (event : Event) (order : List IndexId) (m : List Handle) :
    let r := run event ⟨x, order, m, none⟩ (.replicate order.length .reader)
    r.session = x ∧ r.pending = [] ∧
      x.store.matchIndexes event order m =
        match r.failure with
        | none => .ok () r.found
        | some e => .error e r.found := by
  induction order generalizing m with
  | nil => exact ⟨rfl, rfl, rfl⟩
  | cons i order ih =>
    have hmatch : x.store.matchIndexes event (i :: order) m =
        EStateM.bind (x.store.matchIndex event i) (fun _ => x.store.matchIndexes event order) m := rfl
    rw [List.length_cons, List.replicate_succ, run_cons, hmatch, step, EStateM.bind]
    cases hi : x.store.matchIndex event i m with
    | ok _ found =>
      simp only [hi]
      exact ih found
    | error e found =>
      simp only [hi]
      rw [run_idle rfl]
      exact ⟨rfl, rfl, rfl⟩

end Reading

/-- the filters that a visit of an index reports, with the constants as the index holds them -/
def Store.reports (s : Store) (event : Event) (i : IndexId) : List Filter :=
  (s.hits event i).flatMap fun hit => hit.handles.toList.map fun h => ⟨hit.key, hit.constant, h⟩

theorem Store.map_reports (s : Store) (event : Event) (i : IndexId) :
    (s.reports event i).map (·.handle) = handlesOf (s.hits event i) := by
  simp only [reports, handlesOf, List.map_flatMap, List.map_map, Function.comp_def, List.map_id']

namespace Session

open Store

variable {x : Session} {event : Event} {k : String} {l : Lookup} {i : IndexId}

/-- the filter is registered, and the event satisfies it in its index, which is live -/
def Due (x : Session) (event : Event) (i : IndexId) (f : Filter) : Prop :=
  x.filters.contains f = true ∧ ∃ ix, x.store.registry.get? f.key = some i ∧ x.store.index? i = some ix ∧
    ix.lookup.satisfies event f.constant = true

instance (x : Session) (event : Event) (i : IndexId) (f : Filter) : Decidable (x.Due event i f) :=
  decidable_of_iff (x.filters.contains f = true ∧ x.store.registry.get? f.key = some i ∧
      (x.store.index? i).any (fun ix => ix.lookup.satisfies event f.constant) = true) <| by
    rw [Due, Option.any_eq_true]
    exact and_congr_right fun _ =>
      ⟨fun ⟨hk, ix, hx, hsat⟩ => ⟨ix, hk, hx, hsat⟩, fun ⟨ix, hk, hx, hsat⟩ => ⟨hk, ix, hx, hsat⟩⟩

/-- what a visit reports: the filters that are due, each once -/
structure Reports (x : Session) (event : Event) (i : IndexId) (fs : List Filter) : Prop where
  due : ∀ f ∈ fs, x.Due event i f
  once : fs.Pairwise fun f g => (f == g) = false
  complete : ∀ f, x.Due event i f → fs.contains f = true

/-- a live index reports what is due in it -/
theorem Coherent.reports_live (hs : Coherent x.store x.filters) (hi : i ∈ x.store.live) :
    x.Reports event i (x.store.reports event i) := by
  have ha : x.Answers event [i] (x.store.hits event i) := by
    have := hits_answer hs event (show [i].Nodup from List.pairwise_singleton _ i) (by simpa using hi)
    rwa [List.flatMap_singleton] at this
  refine ⟨?_, ?_, ?_⟩
  · intro f hf
    obtain ⟨hit, hhit, hf⟩ := List.mem_flatMap.1 hf
    obtain ⟨h, hh, rfl⟩ := List.mem_map.1 hf
    obtain ⟨j, hj, ix, hk, hx, hsat⟩ := ha.satisfied hit hhit
    obtain rfl := List.mem_singleton.1 hj
    exact ⟨((ha.registered hit hhit).2 h).1 hh, ix, hk, hx, hsat⟩
  · rw [reports, List.pairwise_flatMap]
    refine ⟨?_, ha.once.imp ?_⟩
    · intro hit hhit
      refine List.pairwise_map.2 (hit.handles.nodup.imp ?_)
      intro h h' hne
      rw [← Bool.not_eq_true]
      exact fun heq => hne (Filter.beq_iff.1 heq).2.2
    · intro a b hab f hf g hg
      obtain ⟨h, -, rfl⟩ := List.mem_map.1 hf
      obtain ⟨h', -, rfl⟩ := List.mem_map.1 hg
      rw [← Bool.not_eq_true]
      intro heq
      obtain ⟨hkey, hconst, -⟩ := Filter.beq_iff.1 heq
      exact hab ⟨hkey, hconst⟩
  · rintro f ⟨hf, ix, hk, hx, hsat⟩
    obtain ⟨j, ix', hk', hx', hhit⟩ := ha.complete f hf
    obtain rfl := Option.some.inj (hk.symm.trans hk')
    obtain rfl := Option.some.inj (hx.symm.trans hx')
    obtain ⟨hit, hhit, hkey, hconst⟩ := hhit List.mem_cons_self hsat
    have heq : f == ⟨hit.key, hit.constant, f.handle⟩ := Filter.beq_iff.2 ⟨hkey.symm, BEq.symm hconst, rfl⟩
    have hmem : f.handle ∈ hit.handles.toList := by
      rw [(ha.registered hit hhit).2]
      rw [List.contains_iff_exists_mem_beq] at hf ⊢
      obtain ⟨g, hg, hfg⟩ := hf
      exact ⟨g, hg, BEq.trans (BEq.symm heq) hfg⟩
    rw [List.contains_iff_exists_mem_beq]
    exact ⟨_, List.mem_flatMap.2 ⟨hit, hhit, List.mem_map.2 ⟨f.handle, hmem, rfl⟩⟩, heq⟩

/-- **A visit reports what is due at its moment**, however the store has changed since the index was live. -/
theorem Coherent.visit_reports (hs : Coherent x.store x.filters) (ht : x.store.Tracked k l i)
    (hfault : l.fault? event = none) (m : List Handle) :
    x.store.matchIndex event i m = .ok () (m ++ (x.store.reports event i).map (·.handle)) ∧
      x.Reports event i (x.store.reports event i) := by
  obtain ⟨ix, hx, rfl, hf, hlive | ⟨hempty, hnot⟩⟩ := ht
  · have hi := hs.sound.live_iff.2 ⟨k, hlive⟩
    refine ⟨?_, hs.reports_live hi⟩
    rw [hs.matchIndex_eq hi, map_reports]
    simp only [Store.fault?, hx, Option.bind_some, hfault]
  · -- a released index holds nothing to run or to report
    have hnil : x.store.reports event i = [] := by
      simp [reports, hits, hx, hempty]
    rw [hnil]
    refine ⟨?_, ?_, .nil, ?_⟩
    · simp only [matchIndex, hx]
      rw [Index.visit_eq hf.sound]
      simp only [hfault, Index.visitSatisfied, hempty]
      show EStateM.Result.ok () m = .ok () (m ++ [])
      rw [List.append_nil]
    · intro f hf
      cases hf
    · rintro f ⟨-, ix', hk, -⟩
      exact absurd (hs.sound.live_iff.2 ⟨f.key, hk⟩) hnot

variable {f : Filter}

/-- a filter that is due in a tracked index has its key -/
theorem Due.key_eq (hs : x.store.Sound) (hf : x.Due event i f) (ht : x.store.Tracked k l i) : f.key = k := by
  obtain ⟨-, ix, hk, hx, -⟩ := hf
  obtain ⟨ix', hx', -, hfiled, -⟩ := ht
  obtain ⟨ix'', hx'', hfiled'⟩ := hs.filed hk
  obtain rfl := Option.some.inj (hx'.symm.trans hx'')
  exact hfiled'.key.symm.trans hfiled.key

/-- a filter that is due stays so while it is registered: its index cannot be released under it -/
theorem Due.step (hs : Coherent x.store x.filters) (hf : x.Due event i f) (call : Call)
    (hstays : (x.step call).filters.contains f = true) : (x.step call).Due event i f := by
  obtain ⟨-, ix, hk, hx, hsat⟩ := hf
  have hs' := step_coherent hs call
  obtain ⟨e, he, -⟩ := hs'.ledger.listed.1 hstays
  obtain ⟨j, ix', hk', hx'⟩ := hs'.sound.index_of_entry he
  obtain rfl := step_registry hs.sound call hk hk'
  obtain ⟨ix'', hx'', hlookup, -⟩ := step_tracked hs.sound call (hs.sound.tracked hk hx)
  obtain rfl := Option.some.inj (hx'.symm.trans hx'')
  exact ⟨hstays, ix', hk', hx', by rwa [hlookup]⟩

end Session

/-! ## Turns -/

/-- what a list of indexes to visit knows of one of them: the key that it was live under, and the lookup that it serves -/
structure Target where
  key : String
  lookup : Lookup
  index : IndexId

namespace Reading

open Session

variable {event : Event} {r : Reading} {targets : List Target}

/-- a reading that has not failed is about to visit these targets, under different keys, none of which has a fault -/
structure Underway (event : Event) (r : Reading) (targets : List Target) : Prop where
  coherent : Coherent r.session.store r.session.filters
  intact : r.failure = none
  pending : r.pending = targets.map (·.index)
  distinct : targets.Pairwise fun t t' => t.key ≠ t'.key
  tracked : ∀ t ∈ targets, r.session.store.Tracked t.key t.lookup t.index
  readable : ∀ t ∈ targets, t.lookup.fault? event = none

theorem Underway.client (h : Underway event r targets) (call : Call) :
    Underway event (r.step event (.client call)) targets where
  coherent := step_coherent h.coherent call
  intact := h.intact
  pending := h.pending
  distinct := h.distinct
  tracked t ht := step_tracked h.coherent.sound call (h.tracked t ht)
  readable := h.readable

theorem Underway.step_nil (h : Underway event r []) : r.step event .reader = r := by
  rw [step, h.pending]
  rfl

/-- a visit reports what is due and goes on to the next target -/
theorem Underway.visit {t : Target} (h : Underway event r (t :: targets)) :
    r.step event .reader = { r with
      pending := targets.map (·.index)
      found := r.found ++ (r.session.store.reports event t.index).map (·.handle) } ∧
    r.session.Reports event t.index (r.session.store.reports event t.index) ∧
    Underway event (r.step event .reader) targets := by
  obtain ⟨hmatch, hreports⟩ :=
    h.coherent.visit_reports (h.tracked t List.mem_cons_self) (h.readable t List.mem_cons_self) r.found
  have hstep : r.step event .reader = { r with
      pending := targets.map (·.index)
      found := r.found ++ (r.session.store.reports event t.index).map (·.handle) } := by
    rw [step, h.pending, List.map_cons]
    simp only [hmatch]
  refine ⟨hstep, hreports, ?_⟩
  rw [hstep]
  exact
  { coherent := h.coherent
    intact := h.intact
    pending := rfl
    distinct := (List.pairwise_cons.1 h.distinct).2
    tracked := fun t' ht' => h.tracked t' (List.mem_cons_of_mem _ ht')
    readable := fun t' ht' => h.readable t' (List.mem_cons_of_mem _ ht') }

/-- the turn after the first `n` visits an index in which the filter is due, and appends its handle -/
def ReportedAt (event : Event) (r : Reading) (turns : List Turn) (n : Nat) (f : Filter) : Prop :=
  turns[n]? = some .reader ∧
  f.handle ∈ (r.run event (turns.take (n + 1))).found.drop (r.run event (turns.take n)).found.length ∧
  ∃ i, (r.run event (turns.take n)).pending.head? = some i ∧ (r.run event (turns.take n)).session.Due event i f

/-- the filter is registered all the time -/
def Stays (event : Event) (r : Reading) (turns : List Turn) (f : Filter) : Prop :=
  ∀ n, (r.run event (turns.take n)).session.filters.contains f = true

instance (r : Reading) (turns : List Turn) (f : Filter) : Decidable (r.Stays event turns f) :=
  decidable_of_iff (∀ n < turns.length + 1, (r.run event (turns.take n)).session.filters.contains f = true) <| by
    refine ⟨fun h n => ?_, fun h n _ => h n⟩
    rcases Nat.lt_or_ge n (turns.length + 1) with hn | hn
    · exact h n hn
    · rw [List.take_of_length_le (Nat.le_of_succ_le hn), ← List.take_length (l := turns)]
      exact h turns.length (Nat.lt_succ_self _)

theorem Stays.tail {turn : Turn} {turns : List Turn} {f : Filter} (h : r.Stays event (turn :: turns) f) :
    (r.step event turn).Stays event turns f := fun n => h (n + 1)

theorem ReportedAt.cons {turn : Turn} {turns : List Turn} {n : Nat} {f : Filter}
    (h : (r.step event turn).ReportedAt event turns n f) : r.ReportedAt event (turn :: turns) (n + 1) f := h

/-- the filters whose handles a reading appends over some turns: each is due when it is reported, none is reported twice,
and once the reading is over none is missing that was due at the beginning and has stayed registered -/
structure Outcome (event : Event) (r : Reading) (targets : List Target) (turns : List Turn) (fs : List Filter) : Prop where
  intact : (r.run event turns).failure = none
  found : (r.run event turns).found = r.found ++ fs.map (·.handle)
  targeted : ∀ f ∈ fs, ∃ t ∈ targets, f.key = t.key
  reported : ∀ f ∈ fs, ∃ n, r.ReportedAt event turns n f
  once : fs.Pairwise fun f g => (f == g) = false
  complete : (r.run event turns).pending = [] → ∀ t ∈ targets, ∀ f, r.session.Due event t.index f →
    r.Stays event turns f → fs.contains f = true

theorem Underway.outcome_nil (h : Underway event r targets) : r.Outcome event targets [] [] where
  intact := h.intact
  found := (List.append_nil _).symm
  targeted f hf := nomatch hf
  reported f hf := nomatch hf
  once := .nil
  complete := by
    intro hp t ht
    rw [run_nil, h.pending, List.map_eq_nil_iff] at hp
    rw [hp] at ht
    cases ht

theorem Underway.outcome_client {call : Call} {turns : List Turn} {fs : List Filter} (h : Underway event r targets)
    (ho : (r.step event (.client call)).Outcome event targets turns fs) :
    r.Outcome event targets (.client call :: turns) fs where
  intact := ho.intact
  found := ho.found
  targeted := ho.targeted
  reported := by
    intro f hf
    obtain ⟨n, hn⟩ := ho.reported f hf
    exact ⟨n + 1, hn.cons⟩
  once := ho.once
  complete := by
    intro hp t ht f hf hstays
    exact ho.complete hp t ht f (hf.step h.coherent call (hstays 1)) hstays.tail

theorem Underway.outcome_idle {turns : List Turn} {fs : List Filter} (h : Underway event r [])
    (ho : r.Outcome event [] turns fs) : r.Outcome event [] (.reader :: turns) fs where
  intact := by rw [run_cons, h.step_nil, ho.intact]
  found := by rw [run_cons, h.step_nil, ho.found]
  targeted := ho.targeted
  reported := by
    intro f hf
    obtain ⟨t, ht, -⟩ := ho.targeted f hf
    cases ht
  once := ho.once
  complete := by
    intro _ t ht
    cases ht

theorem Underway.outcome_visit {t : Target} {turns : List Turn} {fs : List Filter} (h : Underway event r (t :: targets))
    (ho : (r.step event .reader).Outcome event targets turns fs) :
    r.Outcome event (t :: targets) (.reader :: turns) (r.session.store.reports event t.index ++ fs) := by
  obtain ⟨hstep, hreports, -⟩ := h.visit
  have hkey : ∀ f ∈ r.session.store.reports event t.index, f.key = t.key := fun f hf =>
    (hreports.due f hf).key_eq h.coherent.sound (h.tracked t List.mem_cons_self)
  refine ⟨ho.intact, ?_, ?_, ?_, ?_, ?_⟩
  · rw [run_cons, ho.found, hstep, List.map_append, List.append_assoc]
  · intro f hf
    rcases List.mem_append.1 hf with hf | hf
    · exact ⟨t, List.mem_cons_self, hkey f hf⟩
    · obtain ⟨t', ht', hkey'⟩ := ho.targeted f hf
      exact ⟨t', List.mem_cons_of_mem _ ht', hkey'⟩
  · intro f hf
    rcases List.mem_append.1 hf with hf | hf
    · refine ⟨0, rfl, ?_, t.index, ?_, hreports.due f hf⟩
      · rw [List.take_zero, run_nil, List.take_succ_cons, run_cons, List.take_zero, run_nil, hstep, List.drop_left]
        exact List.mem_map.2 ⟨f, hf, rfl⟩
      · rw [List.take_zero, run_nil, h.pending, List.map_cons, List.head?_cons]
    · obtain ⟨n, hn⟩ := ho.reported f hf
      exact ⟨n + 1, hn.cons⟩
  · refine List.pairwise_append.2 ⟨hreports.once, ho.once, ?_⟩
    intro f hf g hg
    -- filters that different visits report have different keys
    obtain ⟨t', ht', hkey'⟩ := ho.targeted g hg
    rw [← Bool.not_eq_true]
    intro heq
    have := (Filter.beq_iff.1 heq).1
    rw [hkey f hf, hkey'] at this
    exact (List.pairwise_cons.1 h.distinct).1 t' ht' this
  · intro hp t' ht' f hf hstays
    rw [List.contains_append, Bool.or_eq_true]
    rcases List.mem_cons.1 ht' with rfl | ht'
    · exact .inl (hreports.complete f hf)
    · refine .inr (ho.complete hp t' ht' f ?_ hstays.tail)
      rwa [hstep]

/-- **Every run of turns has an outcome.** -/
theorem Underway.run_outcome (h : Underway event r targets) (turns : List Turn) :
    ∃ fs, r.Outcome event targets turns fs := by
  induction turns generalizing r targets with
  | nil => exact ⟨[], h.outcome_nil⟩
  | cons turn turns ih =>
    cases turn with
    | client call =>
      obtain ⟨fs, ho⟩ := ih (h.client call)
      exact ⟨fs, h.outcome_client ho⟩
    | reader =>
      cases targets with
      | nil =>
        obtain ⟨fs, ho⟩ := ih h
        exact ⟨fs, h.outcome_idle ho⟩
      | cons t targets =>
        obtain ⟨-, -, hnext⟩ := h.visit
        obtain ⟨fs, ho⟩ := ih hnext
        exact ⟨_, h.outcome_visit ho⟩

/-! ## Main result -/

/-- live indexes that differ are targets under different keys -/
theorem targets_of_live {s : Store} (hs : s.Sound) {order : List IndexId} (hnodup : order.Nodup)
    (hlive : ∀ i ∈ order, i ∈ s.live) : ∃ targets : List Target, order = targets.map (·.index) ∧
      (targets.Pairwise fun t t' => t.key ≠ t'.key) ∧
      ∀ t ∈ targets, s.registry.get? t.key = some t.index ∧ ∃ ix, s.index? t.index = some ix ∧ ix.lookup = t.lookup := by
  induction order with
  | nil => exact ⟨[], rfl, .nil, fun t ht => nomatch ht⟩
  | cons i order ih =>
    obtain ⟨hi, hnodup⟩ := List.nodup_cons.1 hnodup
    obtain ⟨hlive_i, hlive⟩ := List.forall_mem_cons.1 hlive
    obtain ⟨targets, rfl, hdistinct, htargets⟩ := ih hnodup hlive
    obtain ⟨k, hk⟩ := hs.live_iff.1 hlive_i
    obtain ⟨ix, hx, -⟩ := hs.filed hk
    refine ⟨⟨k, ix.lookup, i⟩ :: targets, rfl, List.pairwise_cons.2 ⟨?_, hdistinct⟩, ?_⟩
    · intro t ht hkey
      obtain ⟨hk', -⟩ := htargets t ht
      rw [← hkey, hk] at hk'
      exact hi (List.mem_map.2 ⟨t, ht, (Option.some.inj hk').symm⟩)
    · exact List.forall_mem_cons.2 ⟨⟨hk, ix, hx, rfl⟩, htargets⟩

/-- of filters that are told apart, at most one is equal to a given one -/
theorem countP_eq_one {fs : List Filter} (honce : fs.Pairwise fun f g => (f == g) = false) {f : Filter}
    (hf : fs.contains f = true) : fs.countP (· == f) = 1 := by
  induction fs with
  | nil => cases hf
  | cons g fs ih =>
    obtain ⟨hg, honce⟩ := List.pairwise_cons.1 honce
    rw [List.countP_cons]
    by_cases hgf : (g == f) = true
    · have hrest : fs.countP (· == f) = 0 := by
        rw [List.countP_eq_zero]
        intro x hx hxf
        have := hg x hx
        rw [BEq.trans hgf (BEq.symm hxf)] at this
        cases this
      rw [hrest, if_pos hgf]
    · rw [if_neg hgf]
      rcases Filter.contains_cons.1 hf with hfg | hf
      · exact absurd (BEq.symm hfg) hgf
      · exact ih honce hf

/-- **A filter that stays registered is seen by a match in progress.** After any calls on an empty store, take its live
indexes in any order, none of which has a fault on the event, and visit them one by one while clients make any calls in
between. The match does not fail. It appends the handles of filters, each of which is registered, and satisfied in a live
index, at the moment at which that index is visited; none is reported twice. Once all indexes have been visited, a filter
that the event satisfied at the start, and that has been registered all the time, is reported exactly once. -/
theorem reports_of_interleaving (areas : Bool) (calls : List Call) (event : Event) (m : List Handle)
    (order : List IndexId) (horder : order ~ ((start areas).run calls).store.live)
    (hreadable : ∀ i ∈ order, ((start areas).run calls).store.fault? event i = none) (turns : List Turn) :
    let x := (start areas).run calls
    let r₀ : Reading := ⟨x, order, m, none⟩
    let r := r₀.run event turns
    r.failure = none ∧ ∃ fs : List Filter,
      r.found = m ++ fs.map (·.handle) ∧
      (∀ f ∈ fs, ∃ n, r₀.ReportedAt event turns n f) ∧
      (fs.Pairwise fun f g => (f == g) = false) ∧
      (r.pending = [] → ∀ f i, x.Due event i f → r₀.Stays event turns f → fs.countP (· == f) = 1) := by
  intro x r₀ r
  have hs : Coherent x.store x.filters := run_coherent (start_coherent areas) calls
  have hnodup : order.Nodup := horder.nodup_iff.2 hs.sound.live_nodup
  obtain ⟨targets, rfl, hdistinct, htargets⟩ :=
    targets_of_live hs.sound hnodup fun i hi => horder.mem_iff.1 hi
  have hunderway : Underway event r₀ targets :=
  { coherent := hs
    intact := rfl
    pending := rfl
    distinct := hdistinct
    tracked := by
      intro t ht
      obtain ⟨hk, ix, hx, hlookup⟩ := htargets t ht
      rw [← hlookup]
      exact hs.sound.tracked hk hx
    readable := by
      intro t ht
      obtain ⟨-, ix, hx, hlookup⟩ := htargets t ht
      have := hreadable t.index (List.mem_map.2 ⟨t, ht, rfl⟩)
      rwa [Store.fault?, hx, Option.bind_some, hlookup] at this }
  obtain ⟨fs, ho⟩ := hunderway.run_outcome turns
  refine ⟨ho.intact, fs, ho.found, ho.reported, ho.once, ?_⟩
  intro hp f i hf hstays
  obtain ⟨-, ix, hk, -⟩ := id hf
  have hi : i ∈ targets.map (·.index) := horder.mem_iff.2 (hs.sound.live_iff.2 ⟨f.key, hk⟩)
  obtain ⟨t, ht, rfl⟩ := List.mem_map.1 hi
  exact countP_eq_one ho.once (ho.complete hp t ht f hf hstays)

/-- after the snapshot the index of buses is emptied and released, and made again for another filter -/
def busesChange : List Turn :=
  [.client (.unregister .equal (.field (.property "kind")) (.value (.text "bus")) ⟨2, 7⟩),
    .client (.unregister .equal (.field (.property "kind")) (.value (.text "bus")) ⟨1, 5⟩), .reader,
    .client (.register .equal (.field (.property "kind")) (.value (.text "bus")) ⟨3, 9⟩), .reader]

/-- the released index reports nothing, the new one is not visited, and the filter on the rectangle is seen -/
theorem reports_on_square :
    let x := (start true).run threeFilters
    let r := run busAtCorner ⟨x, [⟨0⟩, ⟨1⟩], [], none⟩ busesChange
    r.session.store.live = [⟨1⟩, ⟨2⟩] ∧ r.failure = none ∧ r.found = [⟨1, 8⟩] ∧
      ∃ fs : List Filter, r.found = fs.map (·.handle) ∧
      fs.countP (· == ⟨registryKey .area position, .rect ⟨.ofInt 10, .ofInt 10, .ofInt 5, .ofInt 5⟩, ⟨1, 8⟩⟩) = 1 := by
  have horder : [⟨0⟩, ⟨1⟩] ~ ((start true).run threeFilters).store.live := .of_eq (by decide +kernel)
  obtain ⟨hfail, fs, hfound, -, -, hall⟩ :=
    reports_of_interleaving true threeFilters busAtCorner [] [⟨0⟩, ⟨1⟩] horder (by decide +kernel) busesChange
  exact ⟨by decide +kernel, hfail, by decide +kernel, fs, hfound,
    hall (by decide +kernel) _ ⟨1⟩ (by decide +kernel) (by decide +kernel)⟩

end Reading

end EventMatching
