/-
How long an index lives, if clients only register filters and take them back.

As long as no registration fails, a store is `Occupied`: a key leads to an index just if some registered filter uses it.
Registering a filter adds its key (`register_ok`), and taking one back either leaves a constant under the key or drops
the index (`unregister_cases`), so each request keeps a store occupied (`Occupied.step`). A registration that fails may
leave an empty index that nobody uses, but touches nothing else: what was there is `Kept` (`register_error`). Both
together are `index_lifetime`.
-/
import Mathlib.Data.List.Dedup
import EventMatching.Proofs.Store.Evolution

namespace EventMatching

open scoped List

/-- what a client asks for: that a filter be registered, or be taken back -/
inductive Request where
  | register (op : Operator) (l : Lookup) (c : Constant) (h : Handle)
  | unregister (op : Operator) (l : Lookup) (c : Constant) (h : Handle)

/-- the operation has not failed -/
def Action.succeeds {α : Type} : EStateM.Result Error Store α → Bool
  | .ok _ _ => true
  | .error _ _ => false

namespace Request

def toCall : Request → Call
  | register op l c h => .register op l c h
  | unregister op l c h => .unregister op l c h

/-- the request does not ask for a registration that fails -/
def isGranted (s : Store) : Request → Bool
  | register op l c h => Action.succeeds (Action.register op l c h s)
  | unregister _ _ _ _ => true

end Request

/-- no registration fails in a run of requests -/
def Session.grants (x : Session) : List Request → Bool
  | [] => true
  | r :: rs => r.isGranted x.store && (x.step r.toCall).grants rs

/-- an index for the operator can be built over the lookup: a field for equality, and for areas, if there are any, an area
in a valid region -/
def Catalog.admits (areas : Bool) : Operator → Lookup → Bool
  | .equal, .field _ => true
  | .area, .area a => areas && a.region.validate.isOk
  | _, _ => false

namespace Filter

variable {fs : List Filter}

theorem exists_of_contains {k : String} {c : Constant} {h : Handle} (hf : fs.contains ⟨k, c, h⟩ = true) :
    ∃ f ∈ fs, f.key = k := by
  obtain ⟨f, hmem, hbeq⟩ := List.contains_iff_exists_mem_beq.1 hf
  exact ⟨f, hmem, (beq_iff.1 hbeq).1.symm⟩

theorem contains_of_mem {f : Filter} (hf : f ∈ fs) (hself : f == f) : fs.contains f = true :=
  List.contains_iff_exists_mem_beq.2 ⟨f, hf, hself⟩

theorem mem_without {f g : Filter} (hg : g ∈ fs) (hne : ¬g == f) : g ∈ without fs f :=
  List.mem_filter.2 ⟨hg, by simpa using hne⟩

end Filter

namespace Store

variable {s t u : Store} {k : String} {i : IndexId} {ix : Index EvaluatorId}

/-- what the first store holds, the second holds in the same place -/
structure Kept (s t : Store) : Prop where
  indexes : ∀ i ix, s.index? i = some ix → t.index? i = some ix
  evaluators : ∀ ev e, s.evaluator? ev = some e → t.evaluator? ev = some e

theorem Kept.refl (s : Store) : Kept s s := ⟨fun _ _ h => h, fun _ _ h => h⟩

theorem Kept.trans (h : Kept s t) (h' : Kept t u) : Kept s u :=
  ⟨fun i ix hx => h'.indexes i ix (h.indexes i ix hx), fun ev e he => h'.evaluators ev e (h.evaluators ev e he)⟩

theorem kept_addEvaluator (s : Store) (e : Evaluator) : Kept s (s.addEvaluator e).2 := by
  refine ⟨fun _ _ h => h, ?_⟩
  intro ev e' he
  have hlt := (List.getElem?_eq_some_iff.1 he).1
  simp only [evaluator?, addEvaluator] at he ⊢
  rw [List.getElem?_append_left hlt, he]

theorem kept_enlist (s : Store) (k : String) (ix : Index EvaluatorId) : Kept s (s.enlist k ix) :=
  ⟨fun _ _ hx => index?_enlist hx k ix, fun _ _ h => h⟩

theorem Evolves.catalog {adds : Bool} (h : Evolves adds s t) : t.catalog = s.catalog := by
  induction h with
  | refl => rfl
  | sets _ hc _ _ ih => exact hc.trans ih
  | write _ _ _ _ _ ih => exact ih
  | enlist _ _ _ _ ih => exact ih
  | delist _ _ _ ih => exact ih

/-- the live indexes are as many as the keys that lead to one -/
theorem Sound.liveCount_eq (hs : s.Sound) {keys : List String} (h : ∀ k, (s.registry.get? k).isSome ↔ k ∈ keys) :
    s.liveCount = keys.dedup.length := by
  have hnodup : (s.registry.entries.map (·.1)).Nodup := by
    refine List.pairwise_map.2 (hs.distinct.imp ?_)
    intro e e' hne heq
    rw [heq, beq_self_eq_true] at hne
    cases hne
  have hperm : s.registry.entries.map (·.1) ~ keys.dedup := by
    rw [List.perm_ext_iff_of_nodup hnodup keys.nodup_dedup]
    intro k
    rw [List.mem_dedup, ← h, Option.isSome_iff_exists, List.mem_map]
    simp only [Table.get?_eq_some_iff hs.distinct]
    constructor
    · intro hk
      obtain ⟨e, he, rfl⟩ := hk
      exact ⟨e.2, e, he, BEq.rfl, rfl⟩
    · intro hi
      obtain ⟨i, e, he, hk, -⟩ := hi
      exact ⟨e, he, eq_of_beq hk⟩
  calc s.liveCount
    _ = (s.registry.entries.map (·.1)).length := (List.length_map _).symm
    _ = keys.dedup.length := hperm.length_eq

end Store

/-! ## Operations -/

namespace Action

open Store Session

variable {s s' : Store} {fs : List Filter} {op : Operator} {l : Lookup} {c : Constant} {h : Handle} {i : IndexId}
  {k : String}

theorem addHandle_registry (hs : s.Sound) (hk : s.registry.get? k = some i) (c : Constant) (h : Handle) :
    (storeAfter (addHandle c h i s)).registry = s.registry := by
  rcases addHandle_cases hs hk c h with
    ⟨err, hr⟩ | ⟨e, -, set, -, -, hr⟩ | ⟨err, hr⟩ | ⟨ix, ix', -, -, -, -, -, -, hr⟩ <;> rw [hr] <;> rfl

/-- a handle is added under constants only that are equal to themselves -/
theorem addHandle_ok (hs : s.Sound) (hk : s.registry.get? k = some i) (hr : addHandle c h i s = .ok () s') :
    c == c := by
  rcases addHandle_cases hs hk c h with
    ⟨err, hr'⟩ | ⟨e, -, set, hec, -, -⟩ | ⟨err, hr'⟩ | ⟨ix, ix', -, -, -, hcc, -⟩
  · rw [hr] at hr'
    cases hr'
  · exact BEq.trans (BEq.symm hec) hec
  · rw [hr] at hr'
    cases hr'
  · exact hcc

/-- a handle that is not added leaves no more than an evaluator that nothing leads to -/
theorem addHandle_error {e : Error} (hs : s.Sound) (hk : s.registry.get? k = some i)
    (hr : addHandle c h i s = .error e s') : s.Kept s' ∧ s'.registry = s.registry ∧ s'.indexes = s.indexes := by
  rcases addHandle_cases hs hk c h with
    ⟨err, hr'⟩ | ⟨e, -, set, -, -, hr'⟩ | ⟨err, hr'⟩ | ⟨ix, ix', -, -, -, -, -, -, hr'⟩
  · rw [hr] at hr'
    cases hr'
    exact ⟨.refl s, rfl, rfl⟩
  · rw [hr] at hr'
    cases hr'
  · rw [hr] at hr'
    cases hr'
    exact ⟨s.kept_addEvaluator _, rfl, rfl⟩
  · rw [hr] at hr'
    cases hr'

theorem dropHandle_error {e : Error} (hs : s.Sound) (hk : s.registry.get? k = some i)
    (hr : dropHandle c h i s = .error e s') : s' = s := by
  rcases dropHandle_cases hs hk c h with
    ⟨err, hr'⟩ | ⟨-, emptied, hr'⟩ | ⟨e, -, set, -, -, -, emptied, hr'⟩ |
      ⟨e, -, set, -, -, -, ix, ix', -, -, -, -, hr'⟩ <;> rw [hr] at hr' <;> cases hr'
  rfl

/-- the answer is whether the index holds no constant any more -/
theorem dropHandle_ok {emptied : Bool} (hs : s.Sound) (hk : s.registry.get? k = some i)
    (hr : dropHandle c h i s = .ok emptied s') :
    s'.registry = s.registry ∧ ∃ ix, s'.index? i = some ix ∧ emptied = ix.isEmpty := by
  obtain ⟨ix, hx, -⟩ := hs.filed hk
  rw [dropHandle_eq c h hx] at hr
  split at hr
  · cases hr
  · split at hr
    · rename_i set hset
      split at hr
      · split at hr
        · rename_i ix' hremove
          cases hr
          exact ⟨rfl, ix', (index?_setIndex hx ix' i).trans (if_pos rfl), rfl⟩
        · cases hr
      · cases hr
        exact ⟨rfl, ix, hx, rfl⟩
    · cases hr
  · cases hr
    exact ⟨rfl, ix, hx, rfl⟩

/-- the handle of a filter that is registered can be dropped -/
theorem dropHandle_registered (hs : Coherent s fs) (hk : s.registry.get? k = some i)
    (hf : fs.contains ⟨k, c, h⟩ = true) : ∃ emptied t, dropHandle c h i s = .ok emptied t := by
  obtain ⟨e, he, hec, set, hset, -⟩ := hs.ledger.listed.1 hf
  obtain ⟨ix, hx, hfiled⟩ := hs.sound.filed hk
  have hunder := indexUnder_eq hk hx
  have hfind : ix.get? c = .ok (some e.2) := by
    cases hg : ix.get? c with
    | error err =>
      have hlacks := Index.get?_error hg e (by rwa [← entriesUnder_some hunder])
      rw [hec] at hlacks
      cases hlacks
    | ok found =>
      rcases entry_of_get? hunder hfiled.sound hg with ⟨e', he', hec', rfl⟩ | ⟨hlacks, -⟩
      · rw [hs.ledger.unique he he' hec hec']
      · have := hlacks e he
        rw [hec] at this
        cases this
  rw [dropHandle_eq c h hx, hfind]
  simp only [hset]
  split
  · obtain ⟨ix', hr⟩ := Index.remove_of_get? hfind
    exact ⟨_, _, by rw [hr]⟩
  · exact ⟨_, _, rfl⟩

/-- an index without constants is dropped -/
theorem release_of_isEmpty {ix : Index EvaluatorId} (hk : s.registry.get? (registryKey op l) = some i)
    (hx : s.index? i = some ix) (hempty : ix.isEmpty = true) :
    discard (release op l) s = .ok () (s.delist (registryKey op l)) := by
  have hlive : s.live? op l = some i := hk
  have hrelease : s.release op l = (true, s.delist (registryKey op l)) := by
    rw [Store.release, hlive]
    simp only [hx, Option.map_some, Option.getD_some, hempty, if_true]
    rfl
  show EStateM.Result.ok () (s.release op l).2 = _
  rw [hrelease]

end Action

namespace Session

open Store

variable {s s' : Store} {fs : List Filter} {op : Operator} {l : Lookup} {c : Constant} {h : Handle} {k : String}

/-- a key has entries just if a filter uses it -/
theorem Coherent.entries_ne_nil_iff (hs : Coherent s fs) :
    s.entriesUnder k ≠ [] ↔ ∃ c h, fs.contains ⟨k, c, h⟩ = true := by
  constructor
  · intro hne
    obtain ⟨e, he⟩ := List.exists_mem_of_ne_nil _ hne
    obtain ⟨set, -, hnonempty, hiff⟩ := hs.ledger.set_of he (hs.ledger.findable he)
    obtain ⟨h, hh⟩ := List.exists_mem_of_ne_nil _ hnonempty
    exact ⟨e.1, h, (hiff h).1 hh⟩
  · intro hex
    obtain ⟨c, h, hf⟩ := hex
    obtain ⟨e, he, -⟩ := hs.ledger.listed.1 hf
    exact List.ne_nil_of_mem he

/-- registering a filter makes no key live but its own -/
theorem register_ok (hs : s.Sound) (hr : Action.register op l c h s = .ok () s') :
    c == c ∧ ∀ k i, s'.registry.get? k = some i → k = registryKey op l ∨ s.registry.get? k = some i := by
  rw [Action.register, Action.writeIndex_eq] at hr
  rcases Action.getOrCreate_cases hs op l with ⟨e, hc⟩ | ⟨i, hc, hk⟩ | ⟨ix, hc, -, hfresh⟩
  · rw [Action.bind_error hc] at hr
    cases hr
  · rw [Action.bind_ok hc] at hr
    have hreg := Action.addHandle_registry hs hk c h
    rw [hr] at hreg
    refine ⟨Action.addHandle_ok hs hk hr, ?_⟩
    intro k j hj
    exact .inr (hreg ▸ hj)
  · rw [Action.bind_ok hc] at hr
    have hsound := hs.enlist (Filed.of_fresh hfresh)
    have hk := get?_enlist_self s (registryKey op l) ix
    have hreg : s'.registry = (s.enlist (registryKey op l) ix).registry := by
      have := Action.addHandle_registry hsound hk c h
      rwa [hr] at this
    refine ⟨Action.addHandle_ok hsound hk hr, ?_⟩
    intro k j hj
    rw [hreg, get?_enlist] at hj
    split at hj
    · rename_i hkk
      exact .inl (eq_of_beq hkk).symm
    · exact .inr hj

/-- a registration fails without a trace if its index has yet to be built and cannot be -/
theorem register_of_build_error {e : Error} (hlive : s.live? op l = none) (hb : s.catalog.build op l = .error e) :
    Action.register op l c h s = .error e s := by
  have hc : Action.getOrCreate op l s = .error e s := by rw [Action.getOrCreate_eq, hlive, hb]
  rw [Action.register, Action.writeIndex_eq]
  exact Action.bind_error hc _

/-- a registration that fails keeps all that was there, and adds at most an empty index under a key that led nowhere -/
theorem register_error {e : Error} (hs : s.Sound) (hr : Action.register op l c h s = .error e s') :
    s.Kept s' ∧ ((s'.registry = s.registry ∧ s'.indexes = s.indexes) ∨
      ∃ ix, s.catalog.build op l = .ok ix ∧ ix.Fresh op l ∧ s.registry.get? (registryKey op l) = none ∧
        s'.registry = s.registry.insert (registryKey op l) ⟨s.indexes.length⟩ ∧ s'.indexes = s.indexes ++ [ix]) := by
  cases hlive : s.live? op l with
  | some i =>
    have hc : Action.getOrCreate op l s = .ok i s := by rw [Action.getOrCreate_eq, hlive]
    rw [Action.register, Action.writeIndex_eq, Action.bind_ok hc] at hr
    obtain ⟨hkept, hsame⟩ := Action.addHandle_error hs hlive hr
    exact ⟨hkept, .inl hsame⟩
  | none =>
    cases hb : s.catalog.build op l with
    | error e' =>
      have hrefused : Action.register op l c h s = .error e' s := register_of_build_error hlive hb
      rw [hr] at hrefused
      cases hrefused
      exact ⟨.refl s, .inl ⟨rfl, rfl⟩⟩
    | ok ix =>
      have hc : Action.getOrCreate op l s = .ok ⟨s.indexes.length⟩ (s.enlist (registryKey op l) ix) := by
        rw [Action.getOrCreate_eq, hlive, hb]
      rw [Action.register, Action.writeIndex_eq, Action.bind_ok hc] at hr
      have hfresh := hs.faithful.build_ok hb
      obtain ⟨hkept, hreg, hindexes⟩ :=
        Action.addHandle_error (hs.enlist (.of_fresh hfresh)) (get?_enlist_self s (registryKey op l) ix) hr
      exact ⟨(s.kept_enlist _ ix).trans hkept, .inr ⟨ix, rfl, hfresh, hlive, hreg, hindexes⟩⟩

/-- taking a filter back fails and changes nothing; or it leaves a constant under the key, if that leads to an index; or
it drops the index, in which nothing is left -/
theorem unregister_cases (hs : Coherent s fs) (op : Operator) (l : Lookup) (c : Constant) (h : Handle) :
    let k := registryKey op l
    (∃ e, Action.unregister op l c h s = .error e s) ∨
    ∃ t, Coherent t (Filter.without fs ⟨k, c, h⟩) ∧ t.registry = s.registry ∧
      ((Action.unregister op l c h s = .ok () t ∧ (t.registry.get? k = none ∨ t.entriesUnder k ≠ [])) ∨
        (Action.unregister op l c h s = .ok () (t.delist k) ∧ (s.registry.get? k).isSome ∧ t.entriesUnder k = [])) := by
  intro k
  have hdrop := hs.drop op l c h
  unfold Action.unregister
  rw [Action.writeExisting_eq] at hdrop
  have heq := Action.writeExisting_eq op l (Action.dropHandle c h) s
  cases hlive : s.live? op l with
  | none =>
    rw [hlive] at heq hdrop
    exact .inr ⟨s, hdrop, rfl, .inl ⟨Action.bind_ok heq _, .inl hlive⟩⟩
  | some i =>
    rw [hlive] at heq hdrop
    cases hr : Action.dropHandle c h i s with
    | error e t =>
      simp only [hr] at heq
      obtain rfl := Action.dropHandle_error hs.sound hlive hr
      exact .inl ⟨e, Action.bind_error heq _⟩
    | ok emptied t =>
      simp only [hr] at heq hdrop
      obtain ⟨hreg, ix, hx, hemptied⟩ := Action.dropHandle_ok hs.sound hlive hr
      have hk : t.registry.get? k = some i := hreg ▸ hlive
      have hentries := entriesUnder_some (indexUnder_eq hk hx)
      refine .inr ⟨t, hdrop, hreg, ?_⟩
      rw [Action.bind_ok heq]
      cases emptied with
      | false =>
        refine .inl ⟨rfl, .inr ?_⟩
        rw [hentries, ne_eq, ← Index.isEmpty_iff, ← hemptied]
        exact Bool.false_ne_true
      | true =>
        have hsome : (s.registry.get? k).isSome := Option.isSome_of_eq_some hlive
        refine .inr ⟨Action.release_of_isEmpty hk hx hemptied.symm, hsome, ?_⟩
        rw [hentries, ← Index.isEmpty_iff, ← hemptied]

/-- a filter that is registered can be taken back -/
theorem unregister_registered (hs : Coherent s fs) (hf : fs.contains ⟨registryKey op l, c, h⟩ = true) :
    ∃ t, Action.unregister op l c h s = .ok () t := by
  obtain ⟨e, he, -⟩ := hs.ledger.listed.1 hf
  obtain ⟨i, ix, hk, -⟩ := hs.sound.index_of_entry he
  have hlive : s.live? op l = some i := hk
  obtain ⟨emptied, t, hr⟩ := Action.dropHandle_registered hs hk hf
  have heq := Action.writeExisting_eq op l (Action.dropHandle c h) s
  simp only [hlive, hr] at heq
  rw [Action.unregister, Action.bind_ok heq]
  cases emptied with
  | false => exact ⟨t, rfl⟩
  | true => exact ⟨(t.release op l).2, rfl⟩

/-! ## Occupied stores -/

/-- the store and the filters belong together, and no key leads to an index that no filter uses -/
structure Occupied (x : Session) : Prop where
  coherent : Coherent x.store x.filters
  genuine : ∀ f ∈ x.filters, f == f
  used : ∀ {k i}, x.store.registry.get? k = some i → ∃ f ∈ x.filters, f.key = k

variable {x : Session}

theorem start_occupied (areas : Bool) : Occupied (start areas) :=
  ⟨start_coherent areas, fun _ hf => (nomatch hf), fun hk => nomatch hk⟩

/-- a key leads to an index just if a filter uses it -/
theorem Occupied.isSome_iff (hx : Occupied x) (k : String) :
    (x.store.registry.get? k).isSome ↔ ∃ f ∈ x.filters, f.key = k := by
  constructor
  · intro hk
    obtain ⟨i, hi⟩ := Option.isSome_iff_exists.1 hk
    exact hx.used hi
  · rintro ⟨f, hf, rfl⟩
    obtain ⟨e, he, -⟩ := hx.coherent.ledger.listed.1 (Filter.contains_of_mem hf (hx.genuine f hf))
    obtain ⟨i, -, hk, -⟩ := hx.coherent.sound.index_of_entry he
    exact Option.isSome_of_eq_some hk

/-- **A request keeps a store occupied**, unless it is a registration that fails. -/
theorem Occupied.step (hx : Occupied x) {r : Request} (hr : r.isGranted x.store = true) : Occupied (x.step r.toCall) := by
  have hcoherent := step_coherent hx.coherent r.toCall
  cases r with
  | register op l c h =>
    simp only [Request.toCall, Session.step, Request.isGranted] at hcoherent hr ⊢
    cases hres : Action.register op l c h x.store with
    | error e s' =>
      rw [hres] at hr
      cases hr
    | ok u s' =>
      rw [hres] at hcoherent
      obtain ⟨hcc, hreg⟩ := register_ok hx.coherent.sound hres
      refine ⟨hcoherent, ?_, ?_⟩
      · intro f hf
        rcases List.mem_cons.1 hf with rfl | hf
        · exact Filter.beq_iff.2 ⟨rfl, hcc, rfl⟩
        · exact hx.genuine f hf
      · intro k i hk
        rcases hreg k i hk with rfl | hk
        · exact ⟨_, List.mem_cons_self, rfl⟩
        · obtain ⟨f, hf, hkey⟩ := hx.used hk
          exact ⟨f, List.mem_cons_of_mem _ hf, hkey⟩
  | unregister op l c h =>
    simp only [Request.toCall, Session.step] at hcoherent ⊢
    have hgenuine : ∀ f ∈ Filter.without x.filters ⟨registryKey op l, c, h⟩, f == f :=
      fun f hf => hx.genuine f (List.mem_filter.1 hf).1
    -- filters under another key stay
    have hother : ∀ {k i}, k ≠ registryKey op l → x.store.registry.get? k = some i →
        ∃ f ∈ Filter.without x.filters ⟨registryKey op l, c, h⟩, f.key = k := by
      intro k i hne hk
      obtain ⟨f, hf, rfl⟩ := hx.used hk
      exact ⟨f, Filter.mem_without hf fun hbeq => hne (Filter.beq_iff.1 hbeq).1, rfl⟩
    rcases unregister_cases hx.coherent op l c h with ⟨e, hres⟩ | ⟨t, ht, hreg, ⟨hres, hkey⟩ | ⟨hres, -, -⟩⟩ <;>
      rw [hres] at hcoherent ⊢
    · exact ⟨hx.coherent, hx.genuine, hx.used⟩
    · refine ⟨hcoherent, hgenuine, ?_⟩
      intro k i hk
      by_cases hne : k = registryKey op l
      · subst hne
        rcases hkey with hnone | hentries
        · have hk : t.registry.get? (registryKey op l) = some i := hk
          rw [hnone] at hk
          cases hk
        · obtain ⟨c', h', hf⟩ := ht.entries_ne_nil_iff.1 hentries
          exact Filter.exists_of_contains hf
      · exact hother hne (hreg ▸ hk)
    · refine ⟨hcoherent, hgenuine, ?_⟩
      intro k i hk
      have hk : (t.delist (registryKey op l)).registry.get? k = some i := hk
      rw [ht.sound.get?_delist] at hk
      split at hk
      · cases hk
      · rename_i hne
        exact hother (fun heq => hne (by rw [heq]; exact BEq.rfl)) (hreg ▸ hk)

theorem Occupied.run {rs : List Request} (hx : Occupied x) (hr : x.grants rs = true) :
    Occupied (x.run (rs.map Request.toCall)) := by
  induction rs generalizing x with
  | nil => exact hx
  | cons r rs ih =>
    rw [grants, Bool.and_eq_true] at hr
    exact ih (hx.step hr.1) hr.2

/-- taking a registered filter back drops the index just if no other filter uses its key -/
theorem Occupied.unregister_registered (hx : Occupied x) (hf : x.filters.contains ⟨registryKey op l, c, h⟩ = true) :
    ∃ t, Action.unregister op l c h x.store = .ok () t ∧
      (t.registry.get? (registryKey op l) = none ↔
        ∀ g ∈ Filter.without x.filters ⟨registryKey op l, c, h⟩, g.key ≠ registryKey op l) := by
  obtain ⟨t, ht⟩ := Session.unregister_registered hx.coherent hf
  have hstep : Occupied (x.step (.unregister op l c h)) := hx.step (r := .unregister op l c h) rfl
  rw [Session.step, ht] at hstep
  refine ⟨t, ht, ?_⟩
  have hiff : (t.registry.get? (registryKey op l)).isSome ↔
      ∃ g ∈ Filter.without x.filters ⟨registryKey op l, c, h⟩, g.key = registryKey op l := hstep.isSome_iff _
  constructor
  · intro hnone g hg hkey
    have hsome := hiff.2 ⟨g, hg, hkey⟩
    rw [hnone] at hsome
    cases hsome
  · intro hall
    rw [← Option.not_isSome_iff_eq_none]
    intro hsome
    obtain ⟨g, hg, hkey⟩ := hiff.1 hsome
    exact hall g hg hkey

/-- taking back a filter that is not registered leaves every index where it is -/
theorem Occupied.unregister_unknown (hx : Occupied x) (hf : x.filters.contains ⟨registryKey op l, c, h⟩ = false) :
    (Action.storeAfter (Action.unregister op l c h x.store)).registry = x.store.registry := by
  rcases unregister_cases hx.coherent op l c h with ⟨e, hr⟩ | ⟨t, ht, hreg, ⟨hr, -⟩ | ⟨hr, hlive, hnil⟩⟩ <;> rw [hr]
  · rfl
  · exact hreg
  · -- some filter uses the key, and it is not the one taken back
    obtain ⟨⟨k, c', h'⟩, hmem, hkey⟩ := (hx.isSome_iff _).1 hlive
    obtain rfl : k = registryKey op l := hkey
    have hne : ¬(⟨registryKey op l, c', h'⟩ : Filter) == ⟨registryKey op l, c, h⟩ := by
      intro hbeq
      rw [← Bool.not_eq_true, List.contains_iff_exists_mem_beq] at hf
      exact hf ⟨_, hmem, BEq.symm hbeq⟩
    have hstays := Filter.contains_of_mem (Filter.mem_without hmem hne) (hx.genuine _ hmem)
    exact absurd hnil (ht.entries_ne_nil_iff.2 ⟨c', h', hstays⟩)

/-! ## The catalog -/

theorem run_catalog (hx : Coherent x.store x.filters) (calls : List Call) :
    (x.run calls).store.catalog = x.store.catalog := by
  induction calls generalizing x with
  | nil => rfl
  | cons call calls ih =>
    obtain ⟨adds, he⟩ := step_evolves hx.sound call
    exact (ih (step_coherent hx call)).trans he.catalog

/-- the catalog of an empty store builds indexes only where it is said to -/
theorem admits_of_build {areas : Bool} {ix : Index EvaluatorId} (hb : (start areas).store.catalog.build op l = .ok ix) :
    Catalog.admits areas op l = true := by
  cases op with
  | equal =>
    cases l with
    | field f => rfl
    | area a => cases areas <;> cases hb
  | area =>
    cases areas with
    | false => cases hb
    | true =>
      cases l with
      | field f => cases hb
      | area a =>
        have hb : Index.ofArea a = .ok ix := hb
        cases hv : a.region.validate with
        | ok u => simp only [Catalog.admits, hv, Except.isOk, Except.toBool, Bool.and_self]
        | error e =>
          simp only [Index.ofArea, Quadtree.new, hv] at hb
          cases hb

/-! ## Main result -/

/-- **An index lives as long as a filter uses it.** After any requests on an empty store, none of which was refused a
registration: a key leads to an index just if a registered filter uses it, so there are as many indexes as keys in use; a
registered filter can be taken back, and its index goes just with the last filter of its key; and taking back what is not
registered moves no index. After any requests at all: a registration that fails keeps every index and every set of handles
as it was, and adds at most an empty index under its own key, which led nowhere; it adds nothing if no index can be built
over its lookup, and it does fail then, unless the key is in use; and taking a filter back fails without a trace. -/
theorem index_lifetime (areas : Bool) (requests : List Request) :
    let x := (start areas).run (requests.map Request.toCall)
    let s := x.store
    ((start areas).grants requests = true →
      (∀ k, (s.registry.get? k).isSome ↔ ∃ f ∈ x.filters, f.key = k) ∧
      s.liveCount = (x.filters.map (·.key)).dedup.length ∧
      ∀ op l c h,
        let f : Filter := ⟨registryKey op l, c, h⟩
        (x.filters.contains f = true →
          ∃ t, Action.unregister op l c h s = .ok () t ∧
            (t.registry.get? f.key = none ↔ ∀ g ∈ Filter.without x.filters f, g.key ≠ f.key)) ∧
        (x.filters.contains f = false →
          (Action.storeAfter (Action.unregister op l c h s)).registry = s.registry)) ∧
    (∀ op l c h e t, Action.register op l c h s = .error e t →
      s.Kept t ∧
      ((t.registry = s.registry ∧ t.indexes = s.indexes) ∨
        ∃ ix, ix.Fresh op l ∧ s.registry.get? (registryKey op l) = none ∧
          t.registry = s.registry.insert (registryKey op l) ⟨s.indexes.length⟩ ∧ t.indexes = s.indexes ++ [ix]) ∧
      (Catalog.admits areas op l = false → t.registry = s.registry ∧ t.indexes = s.indexes)) ∧
    (∀ op l c h, Catalog.admits areas op l = false → s.live? op l = none →
      ∃ e, Action.register op l c h s = .error e s) ∧
    ∀ op l c h e t, Action.unregister op l c h s = .error e t → t = s := by
  intro x s
  have hs : Coherent s x.filters := run_coherent (start_coherent areas) _
  have hcatalog : s.catalog = (start areas).store.catalog := run_catalog (start_coherent areas) _
  refine ⟨?_, ?_, ?_, ?_⟩
  · intro hg
    have hx : Occupied x := (start_occupied areas).run hg
    refine ⟨hx.isSome_iff, hs.sound.liveCount_eq ?_, ?_⟩
    · intro k
      rw [hx.isSome_iff, List.mem_map]
    · intro op l c h f
      exact ⟨hx.unregister_registered, hx.unregister_unknown⟩
  · intro op l c h e t hr
    obtain ⟨hkept, hadds⟩ := register_error hs.sound hr
    refine ⟨hkept, ?_, ?_⟩
    · rcases hadds with hsame | ⟨ix, -, hadds⟩
      · exact .inl hsame
      · exact .inr ⟨ix, hadds⟩
    · intro hnot
      rcases hadds with hsame | ⟨ix, hb, -⟩
      · exact hsame
      · rw [hcatalog] at hb
        rw [admits_of_build hb] at hnot
        cases hnot
  · intro op l c h hnot hlive
    cases hb : s.catalog.build op l with
    | ok ix =>
      rw [hcatalog] at hb
      rw [admits_of_build hb] at hnot
      cases hnot
    | error e => exact ⟨e, register_of_build_error hlive hb⟩
  · intro op l c h e t hr
    rcases unregister_cases hs op l c h with ⟨e', hr'⟩ | ⟨u, -, -, ⟨hr', -⟩ | ⟨hr', -⟩⟩
    · rw [hr] at hr'
      cases hr'
      rfl
    · rw [hr] at hr'
      cases hr'
    · rw [hr] at hr'
      cases hr'

/-- three filters on two indexes are registered, and the one on the rectangle is taken back -/
def oneTakenBack : List Request :=
  [.register .equal (.field (.property "kind")) (.value (.text "bus")) ⟨2, 7⟩,
    .register .area position (.rect ⟨.ofInt 10, .ofInt 10, .ofInt 5, .ofInt 5⟩) ⟨1, 8⟩,
    .register .equal (.field (.property "kind")) (.value (.text "bus")) ⟨1, 5⟩,
    .unregister .area position (.rect ⟨.ofInt 10, .ofInt 10, .ofInt 5, .ofInt 5⟩) ⟨1, 8⟩]

/-- the index by area went with its only filter, and the other index stays if one of its two filters goes; no index by
equality can be built over an area -/
theorem index_lifetime_on_square :
    let kind := Lookup.field (.property "kind")
    let bus := Constant.value (.text "bus")
    let s := ((start true).run (oneTakenBack.map Request.toCall)).store
    (start true).grants oneTakenBack = true ∧ s.liveCount = 1 ∧ (s.registry.get? (registryKey .equal kind)).isSome ∧
      (∃ t, Action.unregister .equal kind bus ⟨2, 7⟩ s = .ok () t ∧ t.registry.get? (registryKey .equal kind) ≠ none) ∧
      (Action.storeAfter (Action.unregister .equal kind bus ⟨3, 9⟩ s)).registry = s.registry ∧
      ∃ e, Action.register .equal position bus ⟨3, 9⟩ s = .error e s := by
  intro kind bus s
  let x := (start true).run (oneTakenBack.map Request.toCall)
  let first : Filter := ⟨registryKey .equal kind, bus, ⟨2, 7⟩⟩
  have hrun : (start true).grants oneTakenBack = true ∧ (x.filters.map (·.key)).dedup.length = 1 ∧
      x.filters.contains first = true ∧ (∃ g ∈ Filter.without x.filters first, g.key = first.key) ∧
      x.filters.contains { first with handle := ⟨3, 9⟩ } = false ∧ s.live? .equal position = none := by decide +kernel
  obtain ⟨hgrants, hone, hfirst, ⟨g, hg, hkey⟩, hunknown, hnone⟩ := hrun
  obtain ⟨hgranted, -, hrefused, -⟩ := index_lifetime true oneTakenBack
  obtain ⟨hkeys, hcount, htaken⟩ := hgranted hgrants
  obtain ⟨t, ht, hlast⟩ := (htaken .equal kind bus ⟨2, 7⟩).1 hfirst
  refine ⟨hgrants, hcount.trans hone, (hkeys _).2 ⟨g, (List.mem_filter.1 hg).1, hkey⟩, ⟨t, ht, ?_⟩, ?_, ?_⟩
  · intro hgone
    exact hlast.1 hgone g hg hkey
  · exact (htaken .equal kind bus ⟨3, 9⟩).2 hunknown
  · exact hrefused .equal position bus ⟨3, 9⟩ rfl hnone

/-- a constant that is refused leaves an index that no filter uses -/
example :
    let refused := Request.register .equal (.field (.property "a")) (.rect ⟨.zero, .zero, .zero, .zero⟩) ⟨1, 1⟩
    let x := (start true).run [refused.toCall]
    (start true).grants [refused] = false ∧ x.store.liveCount = 1 ∧ x.filters = [] := ⟨rfl, rfl, rfl⟩

end Session
end EventMatching
