/-
Equal events match alike.

An index reads what the lookup reads that it was built over, and goes on doing so (`Evolves.reads`). So if all calls name
lookups that read properties, every index does (`run_reads`). Then an index has the same fault on equal events, or the
same hits (`hits_of_equal`), and matching, which appends the handles of hits, ends the same (`matches_of_equal_events`).
-/
import EventMatching.Proofs.Event
import EventMatching.Proofs.Store.Evolution
import EventMatching.Proofs.Store.Matching

namespace EventMatching

open scoped List

/-- the lookup that a call names -/
def Call.lookup : Call → Lookup
  | register _ l _ _ | unregister _ l _ _ | drop _ l _ _ | getOrCreate _ l | release _ l => l

namespace Store

variable {s t : Store} {p : Lookup → Prop} {i : IndexId}

/-- what every index reads is as `p` says -/
def Reads (p : Lookup → Prop) (s : Store) : Prop := ∀ ix ∈ s.indexes, p ix.lookup

theorem Reads.of_index? (h : s.Reads p) {ix : Index EvaluatorId} (hx : s.index? i = some ix) : p ix.lookup :=
  h ix (List.mem_of_getElem? hx)

/-- changes that add no index leave what the indexes read -/
theorem Evolves.reads (he : Evolves false s t) (h : s.Reads p) : t.Reads p := by
  induction he with
  | refl => exact h
  | sets _ _ hi _ ih =>
    unfold Reads
    rw [hi]
    exact ih
  | write _ _ hx hserves _ ih =>
    intro ix hix
    rcases List.mem_or_eq_of_mem_set hix with hold | rfl
    · exact ih ix hold
    · rw [hserves.lookup]
      exact ih.of_index? hx
  | enlist hadds => cases hadds
  | delist _ _ _ ih => exact ih

/-- a live index reads as `p` says if the lookup does that it is asked for by -/
theorem Reads.getOrCreate (hs : s.Sound) (h : s.Reads p) (op : Operator) {l : Lookup} (hl : p l) :
    (∃ e, Action.getOrCreate op l s = .error e s) ∨
      ∃ i t, Action.getOrCreate op l s = .ok i t ∧ t.registry.get? (registryKey op l) = some i ∧ t.Sound ∧ t.Reads p := by
  rcases Action.getOrCreate_cases hs op l with ⟨e, hr⟩ | ⟨i, hr, hk⟩ | ⟨ix, hr, -, hfresh⟩
  · exact .inl ⟨e, hr⟩
  · exact .inr ⟨i, s, hr, hk, hs, h⟩
  · refine .inr ⟨_, _, hr, get?_enlist_self _ _ _, hs.enlist (.of_fresh hfresh), ?_⟩
    intro ix' hix
    rcases List.mem_append.1 hix with hold | hnew
    · exact h ix' hold
    · obtain rfl := List.mem_singleton.1 hnew
      rw [hfresh.lookup]
      exact hl

/-! ## Equal events -/

variable {e e' : Event}

theorem fault?_of_equal (h : s.Reads Lookup.ReadsProperties) (he : e == e') (i : IndexId) : s.fault? e i = s.fault? e' i := by
  unfold fault?
  cases hx : s.index? i with
  | none => rfl
  | some ix => exact (h.of_index? hx).fault?_of_equal he

theorem hits_of_equal (h : s.Reads Lookup.ReadsProperties) (he : e == e') (i : IndexId) : s.hits e i = s.hits e' i := by
  unfold hits
  cases hx : s.index? i with
  | none => rfl
  | some ix => simp only [(h.of_index? hx).satisfies_of_equal he]

end Store

namespace Session

open Store

variable {x : Session} {p : Lookup → Prop}

theorem step_reads (hs : x.store.Sound) (h : x.store.Reads p) {call : Call} (hc : p call.lookup) :
    (x.step call).store.Reads p := by
  cases call with
  | register op l c hd =>
    have hc : p l := hc
    rw [step, after_store, Action.register, Action.writeIndex_eq]
    rcases h.getOrCreate hs op hc with ⟨e, hr⟩ | ⟨i, t, hr, hk, ht, hreads⟩
    · rw [Action.bind_error hr]
      exact h
    · rw [Action.bind_ok hr]
      exact (Evolves.refl.addHandle ht hk).reads hreads
  | unregister op l c hd =>
    rw [step, after_store]
    exact (Evolves.unregister hs op l c hd).reads h
  | drop op l c hd =>
    rw [step, after_store]
    refine Evolves.reads (.writeExisting ?_) h
    intro i hlive
    exact Evolves.refl.dropHandle hs hlive
  | getOrCreate op l =>
    have hc : p l := hc
    rw [step, after_store]
    rcases h.getOrCreate hs op hc with ⟨e, hr⟩ | ⟨i, t, hr, -, -, hreads⟩
    · rw [hr]
      exact h
    · rw [hr]
      exact hreads
  | release op l => exact (Evolves.refl.release hs op l).reads h

theorem run_reads {calls : List Call} (hx : Coherent x.store x.filters) (h : x.store.Reads p)
    (hc : ∀ call ∈ calls, p call.lookup) : (x.run calls).store.Reads p := by
  induction calls generalizing x with
  | nil => exact h
  | cons call calls ih =>
    have hstep := step_reads hx.sound h (hc call List.mem_cons_self)
    exact ih (step_coherent hx call) hstep fun call' hcall => hc call' (List.mem_cons_of_mem _ hcall)

/-! ## Main result -/

/-- **Equal events match alike.** After any calls on an empty store whose lookups read properties, matching the live
indexes in any order does the same on equal events: the same handles are appended in the same order, and both runs succeed
or both fail with the same error. -/
theorem matches_of_equal_events (areas : Bool) (calls : List Call)
    (hcalls : ∀ call ∈ calls, call.lookup.ReadsProperties) {e e' : Event} (he : e == e') (order : List IndexId)
    (horder : order ~ ((start areas).run calls).store.live) (m : List Handle) :
    let s := ((start areas).run calls).store
    s.matchIndexes e order m = s.matchIndexes e' order m := by
  intro s
  have hs : Coherent s ((start areas).run calls).filters := run_coherent (start_coherent areas) calls
  have hreads : s.Reads Lookup.ReadsProperties := run_reads (start_coherent areas) (fun _ hix => nomatch hix) hcalls
  have hlive : ∀ i ∈ order, i ∈ s.live := fun i hi => horder.mem_iff.1 hi
  have hindex : ∀ i ∈ order, s.matchIndex e i = s.matchIndex e' i := by
    intro i hi
    funext m
    rw [hs.matchIndex_eq (hlive i hi), hs.matchIndex_eq (hlive i hi), fault?_of_equal hreads he, hits_of_equal hreads he]
  exact congrFun (forM_congr hindex) m

/-- a filter on the number of a line, and one on a rectangle -/
def lineAndPlace : List Call :=
  [.register .equal (.field (.property "line")) (.value (.int .u8 7 (by decide))) ⟨1, 1⟩,
    .register .area position (.rect ⟨.ofInt 10, .ofInt 10, .ofInt 5, .ofInt 5⟩) ⟨1, 8⟩]

/-- a tram of line 7 at the corner of the rectangle -/
def tram : Event :=
  ⟨"Position", [("line", .int .i64 7 (by decide)), ("ph", .double .zero), ("pw", .double .zero),
    ("px", .double (.ofInt 15)), ("py", .double (.ofInt 15))]⟩

/-- the same tram with numbers of other widths, and with one zero negative -/
def tramOtherwise : Event :=
  ⟨"Position", [("line", .int .i8 7 (by decide)), ("ph", .single (-.zero)), ("pw", .double .zero),
    ("px", .single (.ofInt 15)), ("py", .double (.ofInt 15))]⟩

theorem matches_in_other_widths :
    let s := ((start true).run lineAndPlace).store
    tram ≠ tramOtherwise ∧ tram == tramOtherwise ∧ [⟨1⟩, ⟨0⟩] ~ s.live ∧
      s.matchIndexes tram [⟨1⟩, ⟨0⟩] [] = s.matchIndexes tramOtherwise [⟨1⟩, ⟨0⟩] [] := by
  have hcalls : ∀ call ∈ lineAndPlace, call.lookup.ReadsProperties := by
    intro call hcall
    simp only [lineAndPlace, List.mem_cons, List.not_mem_nil, or_false] at hcall
    rcases hcall with rfl | rfl
    · exact .property "line"
    · exact .properties "px" "py" "pw" "ph" Quadtree.square
  have horder : [⟨1⟩, ⟨0⟩] ~ ((start true).run lineAndPlace).store.live := by
    rw [show ((start true).run lineAndPlace).store.live = [⟨0⟩, ⟨1⟩] by decide +kernel]
    exact .swap ..
  have hequal : tram == tramOtherwise := by decide +kernel
  exact ⟨by decide, hequal, horder, matches_of_equal_events true lineAndPlace hcalls hequal _ horder []⟩

end Session
end EventMatching
