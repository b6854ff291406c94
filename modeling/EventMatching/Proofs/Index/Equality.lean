/-
Runs of storing and removal on an index by equality, against the calls themselves.

`standing` reads off a list of calls which evaluator is stored under a constant: that of the last call on an equal
constant, if it stored one. `Follows` says that a table holds what the calls leave standing; this is so of the table of
a new index, and every call keeps it (`Follows.step`), one with a rectangle by failing. What the index answers, counts
and runs on an event is therefore a matter of the calls and of equality of values only (`answers_of_calls`).
-/
import EventMatching.Proofs.Index.Contents
import EventMatching.Proofs.Digest
import Mathlib.Data.List.Pairwise

namespace EventMatching
namespace Index

open scoped List

variable {E : Type}

/-! ## What the calls leave standing -/

/-- the evaluator that a call leaves under its constant -/
def Change.evaluator? : Change E → Option E
  | .put _ ev => some ev
  | .remove _ => none

/-- the evaluator of the last call on an equal constant, if that call stored one -/
def standing (calls : List (Change E)) (c : Constant) : Option E :=
  (calls.reverse.find? fun x => x.constant == c).bind Change.evaluator?

/-- the values that the calls leave standing, one for all that are equal -/
def standingValues (calls : List (Change E)) : List Value :=
  ((calls.filterMap fun x => x.constant.asValue).filter fun v => (standing calls (.value v)).isSome).pwFilter fun v w =>
    (v == w) = false

theorem standing_concat (calls : List (Change E)) (call : Change E) (c : Constant) :
    standing (calls ++ [call]) c = if call.constant == c then call.evaluator? else standing calls c := by
  rw [standing, List.reverse_concat, List.find?_cons]
  split <;> simp_all [standing]

/-- equal values have the same standing evaluator -/
theorem standing_congr (calls : List (Change E)) {v w : Value} (h : v == w) :
    standing calls (.value v) = standing calls (.value w) := by
  have heq (c : Constant) : (c == .value v) = (c == .value w) := by
    have hconstants : (Constant.value v == .value w) = true := h
    rw [Bool.eq_iff_iff]
    exact ⟨fun hv => BEq.trans hv hconstants, fun hw => BEq.trans hw (BEq.symm hconstants)⟩
  simp only [standing, heq]

/-- what stands under a value was stored under an equal one -/
theorem mem_values_of_standing {calls : List (Change E)} {v : Value} (h : (standing calls (.value v)).isSome = true) :
    ∃ w ∈ calls.filterMap fun x => x.constant.asValue, w == v := by
  obtain ⟨ev, hev⟩ := Option.isSome_iff_exists.1 h
  obtain ⟨x, hx, -⟩ := Option.bind_eq_some_iff.1 hev
  have hmem : x ∈ calls := List.mem_reverse.1 (List.mem_of_find?_eq_some hx)
  have heq := List.find?_some hx
  cases hc : x.constant with
  | value w =>
    rw [hc] at heq
    exact ⟨w, List.mem_filterMap.2 ⟨x, hmem, by rw [hc]; rfl⟩, heq⟩
  | rect r =>
    rw [hc] at heq
    cases heq

/-! ## Values up to equality -/

/-- the list has one value for each kind of equal values with the property, and no others -/
structure Represents (vs : List Value) (p : Value → Prop) : Prop where
  distinct : vs.Pairwise fun v w => (v == w) = false
  covers : ∀ v, (∃ w ∈ vs, w == v) ↔ p v

/-- values that are pairwise unequal have contents of their own -/
theorem nodup_contents {vs : List Value} (h : vs.Pairwise fun v w => (v == w) = false) :
    (vs.map Value.content).Nodup := by
  refine List.pairwise_map.2 (h.imp ?_)
  intro v w hvw hcontent
  rw [Value.beq_iff.2 hcontent] at hvw
  cases hvw

/-- what represents one property has one length -/
theorem Represents.length_eq {vs ws : List Value} {p : Value → Prop} (hv : Represents vs p) (hw : Represents ws p) :
    vs.length = ws.length := by
  have hmem {us us' : List Value} (hu : Represents us p) (hu' : Represents us' p) :
      us.map Value.content ⊆ us'.map Value.content := by
    intro c hc
    obtain ⟨u, hu₁, rfl⟩ := List.mem_map.1 hc
    obtain ⟨u', hu'₁, heq⟩ := (hu'.covers u).2 ((hu.covers u).1 ⟨u, hu₁, BEq.rfl⟩)
    exact List.mem_map.2 ⟨u', hu'₁, Value.beq_iff.1 heq⟩
  have hperm : vs.map Value.content ~ ws.map Value.content :=
    (List.perm_ext_iff_of_nodup (nodup_contents hv.distinct) (nodup_contents hw.distinct)).2 fun _ =>
      ⟨fun h => hmem hv hw h, fun h => hmem hw hv h⟩
  simpa using hperm.length_eq

/-- of two unequal values a third one is unequal to one or the other -/
theorem unequal_split {u v w : Value} (h : (u == w) = false) : (u == v) = false ∨ (v == w) = false := by
  rw [← Bool.not_eq_true, ← Bool.not_eq_true, ← Classical.not_and_iff_not_or_not]
  rintro ⟨huv, hvw⟩
  rw [BEq.trans huv hvw] at h
  cases h

theorem represents_standing (calls : List (Change E)) :
    Represents (standingValues calls) fun v => (standing calls (.value v)).isSome = true := by
  refine ⟨List.pairwise_pwFilter _, fun v => ⟨?_, ?_⟩⟩
  · rintro ⟨w, hw, heq⟩
    have hstands := (List.mem_filter.1 (List.pwFilter_subset _ hw)).2
    rwa [standing_congr calls heq] at hstands
  · intro hv
    obtain ⟨w, hw, heq⟩ := mem_values_of_standing hv
    have hmem : w ∈ (calls.filterMap fun x => x.constant.asValue).filter fun v => (standing calls (.value v)).isSome :=
      List.mem_filter.2 ⟨hw, by rwa [standing_congr calls heq]⟩
    -- were `w` unequal to all that the filter keeps, it would be unequal to itself
    have hkept : ¬∀ u ∈ standingValues calls, (w == u) = false := by
      intro hall
      have hw := (List.forall_mem_pwFilter (R := fun v w : Value => (v == w) = false) unequal_split w _).1 hall w hmem
      rw [BEq.rfl] at hw
      cases hw
    obtain ⟨u, hu, hwu⟩ : ∃ u ∈ standingValues calls, (w == u) = true := by simpa using hkept
    exact ⟨u, hu, BEq.trans (BEq.symm hwu) heq⟩

/-! ## The invariant -/

/-- the table holds what the calls leave standing -/
structure Follows (calls : List (Change E)) (t : Table Value E) : Prop where
  distinct : t.Distinct
  get?_eq : ∀ v, t.get? v = standing calls (.value v)

theorem follows_nil : Follows ([] : List (Change E)) .empty := ⟨.nil, fun _ => rfl⟩

/-- **One call.** -/
theorem Follows.step {calls : List (Change E)} {t : Table Value E} (h : Follows calls t) (f : Field) (call : Change E) :
    ∃ t', (equality f t).step call = equality f t' ∧ Follows (calls ++ [call]) t' := by
  cases call with
  | put c ev =>
    cases c with
    | value w =>
      refine ⟨t.insert w ev, rfl, h.distinct.insert w ev, fun v => ?_⟩
      rw [Table.get?_insert, h.get?_eq, standing_concat]
      rfl
    | rect r =>
      refine ⟨t, rfl, h.distinct, fun v => ?_⟩
      rw [h.get?_eq, standing_concat]
      rfl
  | remove c =>
    cases c with
    | value w =>
      refine ⟨t.erase w, rfl, h.distinct.erase w, fun v => ?_⟩
      rw [Table.get?_erase t h.distinct, h.get?_eq, standing_concat]
      rfl
    | rect r =>
      refine ⟨t, rfl, h.distinct, fun v => ?_⟩
      rw [h.get?_eq, standing_concat]
      rfl

theorem Follows.run {before : List (Change E)} {t : Table Value E} (h : Follows before t) (f : Field)
    (calls : List (Change E)) : ∃ t', (equality f t).run calls = equality f t' ∧ Follows (before ++ calls) t' := by
  induction calls generalizing before t with
  | nil => exact ⟨t, rfl, by rwa [List.append_nil]⟩
  | cons call calls ih =>
    obtain ⟨t₁, hstep, h₁⟩ := h.step f call
    obtain ⟨t', hrun, h'⟩ := ih h₁
    refine ⟨t', ?_, by rwa [List.append_assoc] at h'⟩
    rw [← hrun, ← hstep]
    rfl

/-- in a table that follows the calls stand as many keys as there are values left standing -/
theorem Follows.size_eq {calls : List (Change E)} {t : Table Value E} (h : Follows calls t) :
    t.size = (standingValues calls).length := by
  have hkeys : Represents (t.entries.map (·.1)) fun v => (standing calls (.value v)).isSome = true := by
    refine ⟨List.pairwise_map.2 h.distinct, fun v => ?_⟩
    rw [← h.get?_eq, Option.isSome_iff_exists]
    constructor
    · rintro ⟨w, hw, heq⟩
      obtain ⟨e, he, rfl⟩ := List.mem_map.1 hw
      exact ⟨e.2, (Table.get?_eq_some_iff h.distinct).2 ⟨e, he, heq, rfl⟩⟩
    · rintro ⟨ev, hev⟩
      obtain ⟨e, he, heq, -⟩ := Table.mem_of_get? hev
      exact ⟨e.1, List.mem_map_of_mem he, heq⟩
  simpa [Table.size] using hkeys.length_eq (represents_standing calls)

/-! ## Main result -/

/-- **An index by equality is a map modulo equality of values.** After any calls that store and remove under any
constants:

- equality of values is an equivalence that agrees with what is hashed for them, as keys of a hash table must have;
- storing, looking up and removing under a rectangle fail with the kind `invalidDataType`, and leave the index as it is;
- storing and removing under a value succeed, and a look-up finds the evaluator of the last call on an equal value, if
  that call stored one;
- the size is the number of values that stand, equal ones counted once, and an index is empty just if it is 0;
- a visit fails with the error of reading the field, if that fails; runs nothing if the value is null or no equal one
  stands; and otherwise ends as the one evaluator that stands under an equal value does. -/
theorem answers_of_calls (f : Field) (calls : List (Change E)) :
    let ix := (ofField f).run calls
    (Equivalence fun v w : Value => v == w) ∧ (∀ v w : Value, v == w → v.digest = w.digest) ∧
    (∀ (r : Rect) (ev : E), let err := Error.needsValue f.expression (.rect r)
      err.kind = .invalidDataType ∧ ix.get? (.rect r) = .error err ∧ ix.put (.rect r) ev = .error err ∧
        ix.remove (.rect r) = .error err ∧ ix.step (.put (.rect r) ev) = ix ∧ ix.step (.remove (.rect r)) = ix) ∧
    (∀ (v : Value) (ev : E), ix.put (.value v) ev = .ok (ix.step (.put (.value v) ev)) ∧
      ix.remove (.value v) = .ok (ix.step (.remove (.value v))) ∧
      ix.get? (.value v) = .ok (standing calls (.value v))) ∧
    ix.size = (standingValues calls).length ∧ (ix.isEmpty = true ↔ ix.size = 0) ∧
    ∀ {σ : Type} (event : Event) (run : E → EStateM Error σ Unit) (s : σ),
      (∀ err, f.extract event = .error err → ix.visit event run s = .error err s) ∧
      (∀ v, f.extract event = .ok v → v.isNull = true ∨ standing calls (.value v) = none →
        ix.visit event run s = .ok () s) ∧
      ∀ v ev, f.extract event = .ok v → v.isNull = false → standing calls (.value v) = some ev →
        ix.visit event run s = run ev s := by
  intro ix
  obtain ⟨t, hix, h⟩ := follows_nil.run f calls
  have hix : ix = equality f t := hix
  rw [List.nil_append] at h
  rw [hix]
  refine ⟨⟨fun _ => BEq.rfl, BEq.symm, BEq.trans⟩, fun _ _ => Value.digest_eq_iff.2, ?_, ?_, h.size_eq,
    size_eq_zero_iff.symm, ?_⟩
  · exact fun _ _ => ⟨rfl, rfl, rfl, rfl, rfl, rfl⟩
  · intro v ev
    refine ⟨rfl, rfl, ?_⟩
    rw [← h.get?_eq]
    rfl
  · intro σ event run s
    refine ⟨?_, ?_, ?_⟩
    · intro err herr
      simp only [visit, herr]
      rfl
    · intro v hv hnone
      simp only [visit, hv, h.get?_eq]
      rcases hnone with hnull | hnone
      · rw [if_pos hnull]
        rfl
      · rw [hnone]
        split <;> rfl
    · intro v ev hv hnull hstands
      simp only [visit, hv, h.get?_eq, hnull, hstands, Bool.false_eq_true, if_false]

/-- a null, one number in two widths, and a text that is removed again -/
def nineTwice : List (Change Nat) :=
  [.put (.value .null) 0, .put (.value (.int .u8 9 (by decide))) 1, .put (.value (.text "9")) 2,
    .put (.value (.int .i64 9 (by decide))) 3, .remove (.value (.text "9"))]

/-- a bus of line 9 -/
def lineNine : Event := ⟨"Position", [("line", .int .u16 9 (by decide))]⟩

/-- the number counts once and is found in a third width, the text is gone, and the null is never run -/
theorem answers_on_widths :
    let ix := (ofField (.property "line")).run nineTwice
    let note := fun ev : Nat => (modify (· ++ [ev]) : EStateM Error (List Nat) Unit)
    ix.size = 2 ∧ ix.get? (.value (.text "9")) = .ok none ∧ ix.visit lineNine note [] = .ok () [3] ∧
      ix.visit ⟨"Position", []⟩ note [] = .ok () [] := by
  intro ix note
  obtain ⟨-, -, -, hanswers, hsize, -, hvisit⟩ := answers_of_calls (.property "line") nineTwice
  obtain ⟨-, -, hget⟩ := hanswers (.text "9") 0
  obtain ⟨-, -, hruns⟩ := hvisit lineNine note []
  obtain ⟨-, hskips, -⟩ := hvisit ⟨"Position", []⟩ note []
  refine ⟨hsize.trans (by decide +kernel), hget.trans (congrArg _ (by decide +kernel)), ?_, hskips .null rfl (.inl rfl)⟩
  exact hruns (.int .u16 9 (by decide)) 3 rfl rfl (by decide +kernel)

end Index
end EventMatching
