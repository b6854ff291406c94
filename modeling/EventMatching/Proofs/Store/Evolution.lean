/-
What calls do to the indexes of a store.

`Evolves` lists the changes that one call can make: to sets of handles, to a live index that goes on serving the same, and
to the registry, where a call either adds an empty index or drops one without entries, but never both. Every call keeps to
that (`step_evolves`). So an index that has once been live under a key is `Tracked` from then on, over any number of calls
(`step_tracked`): it serves one lookup, and either it is still live under its key, or it holds nothing, is live no longer
and never will be again. And a key that leads to an index in two successive states leads to the same one
(`step_registry`).
-/
import EventMatching.Proofs.Store.Runs

namespace EventMatching

/-- the store that an operation leaves, whether it fails or not -/
def Action.storeAfter {α : Type} : EStateM.Result Error Store α → Store
  | .ok _ s => s
  | .error _ s => s

namespace Store

variable {s t u : Store} {adds : Bool} {k : String} {i : IndexId} {l : Lookup}

/-- the second store comes from the first by changes of one call, which adds indexes to the registry or drops them from
it -/
inductive Evolves (adds : Bool) (s : Store) : Store → Prop
  | refl : Evolves adds s s
  | sets {t u : Store} : Evolves adds s t → u.catalog = t.catalog → u.indexes = t.indexes → u.registry = t.registry →
      Evolves adds s u
  | write {t : Store} {k : String} {i : IndexId} {ix ix' : Index EvaluatorId} : Evolves adds s t →
      t.registry.get? k = some i → t.index? i = some ix → ix.Serves ix' → ix'.Sound → Evolves adds s (t.setIndex i ix')
  | enlist {t : Store} {k : String} {ix : Index EvaluatorId} : adds = true → Evolves adds s t →
      t.registry.get? k = none → Filed k ix → Evolves adds s (t.enlist k ix)
  | delist {t : Store} {k : String} : adds = false → Evolves adds s t → t.entriesUnder k = [] →
      Evolves adds s (t.delist k)

theorem Evolves.sound (h : Evolves adds s t) (hs : s.Sound) : t.Sound := by
  induction h with
  | refl => exact hs
  | sets _ hc hi hr ih => exact ih.congr hc hi hr
  | write _ hk hx hserves hsound ih =>
    obtain ⟨ix, hx', hf⟩ := ih.filed hk
    obtain rfl := Option.some.inj (hx.symm.trans hx')
    exact ih.setIndex hk hx (hf.serves hserves hsound)
  | enlist _ _ _ hf ih => exact ih.enlist hf
  | delist _ _ _ ih => exact ih.delist _

/-! ## The registry -/

/-- a call that adds indexes leaves the live ones where they are -/
theorem Evolves.keeps (h : Evolves true s t) (hk : s.registry.get? k = some i) : t.registry.get? k = some i := by
  induction h with
  | refl => exact hk
  | sets _ _ _ hr ih => rwa [hr]
  | write _ _ _ _ _ ih => exact ih
  | @enlist t k' ix _ _ hnone _ ih =>
    rw [get?_enlist, if_neg]
    · exact ih
    · intro hkk
      rw [eq_of_beq hkk, ih] at hnone
      cases hnone
  | delist hadds => cases hadds

/-- a call that drops indexes makes none live -/
theorem Evolves.was (h : Evolves false s t) (hs : s.Sound) (hk : t.registry.get? k = some i) :
    s.registry.get? k = some i := by
  induction h with
  | refl => exact hk
  | sets _ _ _ hr ih => exact ih (by rwa [← hr])
  | write _ _ _ _ _ ih => exact ih hk
  | enlist hadds => cases hadds
  | delist _ ht _ ih =>
    rw [(ht.sound hs).get?_delist] at hk
    split at hk
    · cases hk
    · exact ih hk

/-! ## Tracked indexes -/

/-- the index serves the lookup and is filed under the key; it is live there, or it holds nothing and is not live -/
def Tracked (s : Store) (k : String) (l : Lookup) (i : IndexId) : Prop :=
  ∃ ix, s.index? i = some ix ∧ ix.lookup = l ∧ Filed k ix ∧
    (s.registry.get? k = some i ∨ (ix.contents.entries = [] ∧ i ∉ s.live))

/-- a live index is tracked -/
theorem Sound.tracked (hs : s.Sound) (hk : s.registry.get? k = some i) {ix : Index EvaluatorId}
    (hx : s.index? i = some ix) : s.Tracked k ix.lookup i := by
  obtain ⟨ix', hx', hf⟩ := hs.filed hk
  obtain rfl := Option.some.inj (hx.symm.trans hx')
  exact ⟨ix, hx, rfl, hf, .inl hk⟩

theorem Tracked.write (ht : s.Tracked k l i) (hs : s.Sound) {k' : String} {j : IndexId} {ix ix' : Index EvaluatorId}
    (hk : s.registry.get? k' = some j) (hx : s.index? j = some ix) (hserves : ix.Serves ix') (hsound : ix'.Sound) :
    (s.setIndex j ix').Tracked k l i := by
  obtain ⟨old, hold, hlookup, hf, hstate⟩ := ht
  by_cases hij : i = j
  · subst hij
    obtain rfl := Option.some.inj (hx.symm.trans hold)
    refine ⟨ix', (index?_setIndex hx ix' i).trans (if_pos rfl), ?_, hf.serves hserves hsound, ?_⟩
    · rw [hserves.lookup, hlookup]
    · rcases hstate with hlive | ⟨-, hnot⟩
      · exact .inl hlive
      · exact absurd (hs.live_iff.2 ⟨k', hk⟩) hnot
  · exact ⟨old, (index?_setIndex hx ix' i).trans ((if_neg hij).trans hold), hlookup, hf, hstate⟩

theorem Tracked.enlist (ht : s.Tracked k l i) (hs : s.Sound) {k' : String} {ix : Index EvaluatorId}
    (hnone : s.registry.get? k' = none) (hf : Filed k' ix) : (s.enlist k' ix).Tracked k l i := by
  obtain ⟨old, hold, hlookup, hfiled, hstate⟩ := ht
  refine ⟨old, index?_enlist hold k' ix, hlookup, hfiled, ?_⟩
  rcases hstate with hlive | ⟨hempty, hnot⟩
  · left
    rw [get?_enlist, if_neg]
    · exact hlive
    · intro hkk
      rw [eq_of_beq hkk, hlive] at hnone
      cases hnone
  · refine .inr ⟨hempty, ?_⟩
    intro hi
    obtain ⟨k'', hk''⟩ := (hs.enlist hf).live_iff.1 hi
    rw [get?_enlist] at hk''
    split at hk''
    · -- the new index has a place of its own
      obtain rfl := Option.some.inj hk''
      exact absurd (index?_lt hold) (Nat.lt_irrefl _)
    · exact hnot (hs.live_iff.2 ⟨k'', hk''⟩)

theorem Tracked.delist (ht : s.Tracked k l i) (hs : s.Sound) {k' : String} (hempty : s.entriesUnder k' = []) :
    (s.delist k').Tracked k l i := by
  obtain ⟨ix, hx, hlookup, hf, hstate⟩ := ht
  refine ⟨ix, hx, hlookup, hf, ?_⟩
  have hnot_live : ∀ k'', (s.delist k').registry.get? k'' = some i → s.registry.get? k'' = some i ∧ k'' ≠ k' := by
    intro k'' hk''
    rw [hs.get?_delist] at hk''
    split at hk''
    · cases hk''
    · rename_i hkk
      exact ⟨hk'', fun h => hkk (by rw [h]; exact BEq.rfl)⟩
  rcases hstate with hlive | ⟨hnil, hnot⟩
  · by_cases hkk : k' = k
    · -- the index is the one that is dropped
      subst hkk
      refine .inr ⟨?_, ?_⟩
      · rwa [entriesUnder_some (indexUnder_eq hlive hx)] at hempty
      · intro hi
        obtain ⟨k'', hk''⟩ := (hs.delist k').live_iff.1 hi
        obtain ⟨hwas, hne⟩ := hnot_live k'' hk''
        exact hne (hs.key_unique hwas hlive)
    · left
      rw [hs.get?_delist, if_neg (by simpa using hkk)]
      exact hlive
  · refine .inr ⟨hnil, ?_⟩
    intro hi
    obtain ⟨k'', hk''⟩ := (hs.delist k').live_iff.1 hi
    exact hnot (hs.live_iff.2 ⟨k'', (hnot_live k'' hk'').1⟩)

/-- **An index stays tracked.** -/
theorem Tracked.evolves (ht : s.Tracked k l i) (hs : s.Sound) (h : Evolves adds s t) : t.Tracked k l i := by
  induction h with
  | refl => exact ht
  | @sets t u _ _ hi hr ih =>
    obtain ⟨ix, hx, hlookup, hf, hstate⟩ := ih
    refine ⟨ix, ?_, hlookup, hf, ?_⟩
    · rw [index?, hi]
      exact hx
    · rw [live, hr]
      exact hstate
  | write ht hk hx hserves hsound ih => exact ih.write (ht.sound hs) hk hx hserves hsound
  | enlist _ ht hnone hf ih => exact ih.enlist (ht.sound hs) hnone hf
  | delist _ ht hempty ih => exact ih.delist (ht.sound hs) hempty

/-! ## Operations -/

section Operations

variable {op : Operator} {c : Constant} {h : Handle}

theorem Evolves.addHandle (he : Evolves adds s t) (hs : s.Sound) (hk : t.registry.get? k = some i) :
    Evolves adds s (Action.storeAfter (Action.addHandle c h i t)) := by
  rcases Action.addHandle_cases (he.sound hs) hk c h with
    ⟨err, hr⟩ | ⟨e, -, set, -, -, hr⟩ | ⟨err, hr⟩ | ⟨ix, ix', hx, hserves, hsound, -, -, -, hr⟩
  · rw [hr]
    exact he
  · rw [hr]
    exact he.sets rfl rfl rfl
  · rw [hr]
    exact he.sets rfl rfl rfl
  · rw [hr]
    have hadded : Evolves adds s (t.addEvaluator (.handles (.singleton h))).2 := he.sets rfl rfl rfl
    exact hadded.write hk hx hserves hsound

theorem Evolves.dropHandle (he : Evolves adds s t) (hs : s.Sound) (hk : t.registry.get? k = some i) :
    Evolves adds s (Action.storeAfter (Action.dropHandle c h i t)) := by
  rcases Action.dropHandle_cases (he.sound hs) hk c h with
    ⟨err, hr⟩ | ⟨-, emptied, hr⟩ | ⟨e, -, set, -, -, -, emptied, hr⟩ |
      ⟨e, -, set, -, -, -, ix, ix', hx, hserves, hsound, -, hr⟩
  · rw [hr]
    exact he
  · rw [hr]
    exact he
  · rw [hr]
    exact he.sets rfl rfl rfl
  · rw [hr]
    have hset : Evolves adds s (t.setEvaluator e.2 (.handles (set.erase h))) := he.sets rfl rfl rfl
    exact hset.write hk hx hserves hsound

theorem Evolves.getOrCreate (hs : s.Sound) (op : Operator) (l : Lookup) :
    (∃ e, Action.getOrCreate op l s = .error e s) ∨
      ∃ i t, Action.getOrCreate op l s = .ok i t ∧ t.registry.get? (registryKey op l) = some i ∧ Evolves true s t := by
  rcases Action.getOrCreate_cases hs op l with ⟨e, hr⟩ | ⟨i, hr, hk⟩ | ⟨ix, hr, hnone, hfresh⟩
  · exact .inl ⟨e, hr⟩
  · exact .inr ⟨i, s, hr, hk, .refl⟩
  · exact .inr ⟨_, _, hr, get?_enlist_self _ _ _, .enlist rfl .refl hnone (.of_fresh hfresh)⟩

theorem Evolves.release (he : Evolves false s t) (hs : s.Sound) (op : Operator) (l : Lookup) :
    Evolves false s (t.release op l).2 := by
  rcases Action.release_cases (he.sound hs) op l with hr | ⟨hnil, hr⟩
  · rw [hr]
    exact he
  · rw [hr]
    exact he.delist rfl hnil

theorem Evolves.writeExisting {α : Type} {body : IndexId → Action α}
    (hbody : ∀ i, s.live? op l = some i → Evolves adds s (Action.storeAfter (body i s))) :
    Evolves adds s (Action.storeAfter (Action.writeExisting op l body s)) := by
  rw [Action.writeExisting_eq]
  cases hlive : s.live? op l with
  | none => exact .refl
  | some i =>
    have := hbody i hlive
    cases hr : body i s <;> rw [hr] at this <;> simp only [hr] <;> exact this

theorem Evolves.unregister (hs : s.Sound) (op : Operator) (l : Lookup) (c : Constant) (h : Handle) :
    Evolves false s (Action.storeAfter (Action.unregister op l c h s)) := by
  have hdrop : Evolves false s (Action.storeAfter (Action.writeExisting op l (Action.dropHandle c h) s)) :=
    .writeExisting fun i hlive => Evolves.refl.dropHandle hs hlive
  unfold Action.unregister
  cases hr : Action.writeExisting op l (Action.dropHandle c h) s with
  | error e t =>
    rw [hr] at hdrop
    rw [Action.bind_error hr]
    exact hdrop
  | ok emptied t =>
    rw [hr] at hdrop
    rw [Action.bind_ok hr]
    rcases emptied with _ | emptied
    · exact hdrop
    · cases emptied with
      | false => exact hdrop
      | true => exact Evolves.release hdrop hs op l

end Operations

end Store

namespace Session

open Store

variable {x : Session} {k : String} {i : IndexId} {l : Lookup}

theorem after_store {α : Type} (done undone : List Filter) (r : EStateM.Result Error Store α) :
    (after done undone r).store = Action.storeAfter r := by
  cases r <;> rfl

/-- **A call adds to the registry or drops from it, and does no more than that.** -/
theorem step_evolves (hs : x.store.Sound) (call : Call) : ∃ adds, Evolves adds x.store (x.step call).store := by
  cases call with
  | register op l c h =>
    refine ⟨true, ?_⟩
    rw [step, after_store, Action.register, Action.writeIndex_eq]
    rcases Evolves.getOrCreate hs op l with ⟨e, hr⟩ | ⟨i, t, hr, hk, he⟩
    · rw [Action.bind_error hr]
      exact .refl
    · rw [Action.bind_ok hr]
      exact he.addHandle hs hk
  | unregister op l c h =>
    refine ⟨false, ?_⟩
    rw [step, after_store]
    exact .unregister hs op l c h
  | drop op l c h =>
    refine ⟨false, ?_⟩
    rw [step, after_store]
    exact .writeExisting fun i hlive => Evolves.refl.dropHandle hs hlive
  | getOrCreate op l =>
    refine ⟨true, ?_⟩
    rw [step, after_store]
    rcases Evolves.getOrCreate hs op l with ⟨e, hr⟩ | ⟨i, t, hr, -, he⟩
    · rw [hr]
      exact .refl
    · rw [hr]
      exact he
  | release op l => exact ⟨false, Evolves.refl.release hs op l⟩

theorem step_tracked (hs : x.store.Sound) (call : Call) (ht : x.store.Tracked k l i) :
    (x.step call).store.Tracked k l i := by
  obtain ⟨adds, he⟩ := step_evolves hs call
  exact ht.evolves hs he

/-- a call leaves a key with its index, or leaves it without one -/
theorem step_registry (hs : x.store.Sound) (call : Call) (hk : x.store.registry.get? k = some i) {j : IndexId}
    (hj : (x.step call).store.registry.get? k = some j) : j = i := by
  obtain ⟨adds, he⟩ := step_evolves hs call
  cases adds with
  | true => exact Option.some.inj (hj.symm.trans (he.keeps hk))
  | false => exact Option.some.inj ((he.was hs hj).symm.trans hk)

end Session
end EventMatching
