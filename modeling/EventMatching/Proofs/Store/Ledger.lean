/-
Ledgers: which filters are registered, against what is stored.

A `Filter` is a handle under a constant under a key. A list of filters is a `Ledger` of some entries, given by key, and
of the sets of handles behind their evaluators, if every filter of the list stands in the set under its key and constant
and nothing else stands anywhere, no set is empty, and no two entries share one. The lemmas say what a ledger becomes as
a handle joins a set (`Ledger.join`), comes under a new constant (`Ledger.open`), leaves a set (`Ledger.leave`) or leaves
the set that it was alone in, which goes (`Ledger.close`).
-/
import EventMatching.Store.Basic
import EventMatching.Proofs.Index.Contents

namespace EventMatching

open scoped List

/-- a handle that is registered under a constant, in the index under a key -/
structure Filter where
  key : String
  constant : Constant
  handle : Handle

namespace Filter

/-- filters are equal if their constants are -/
instance : BEq Filter := ⟨fun f g => f.key == g.key && f.constant == g.constant && f.handle == g.handle⟩

theorem beq_iff {f g : Filter} : f == g ↔ f.key = g.key ∧ f.constant == g.constant ∧ f.handle = g.handle := by
  show (_ && _ && _) = true ↔ _
  simp [and_assoc]

instance : PartialEquivBEq Filter where
  symm h := by
    rw [beq_iff] at *
    exact ⟨h.1.symm, BEq.symm h.2.1, h.2.2.symm⟩
  trans h h' := by
    rw [beq_iff] at *
    exact ⟨h.1.trans h'.1, BEq.trans h.2.1 h'.2.1, h.2.2.trans h'.2.2⟩

/-- the filters without those equal to `f` -/
def without (fs : List Filter) (f : Filter) : List Filter := fs.filter fun g => !(g == f)

theorem contains_cons {fs : List Filter} {f g : Filter} :
    (f :: fs).contains g = true ↔ g == f ∨ fs.contains g = true := by
  rw [List.contains_cons, Bool.or_eq_true]

theorem contains_without {fs : List Filter} {f g : Filter} :
    (without fs f).contains g = true ↔ ¬g == f ∧ fs.contains g = true := by
  simp only [without, List.contains_iff_exists_mem_beq, List.mem_filter, Bool.not_eq_true']
  constructor
  · intro hex
    obtain ⟨x, ⟨hx, hxf⟩, hgx⟩ := hex
    refine ⟨?_, x, hx, hgx⟩
    intro hgf
    rw [BEq.trans (BEq.symm hgx) hgf] at hxf
    cases hxf
  · intro hex
    obtain ⟨hgf, x, hx, hgx⟩ := hex
    refine ⟨x, ⟨hx, ?_⟩, hgx⟩
    rw [← Bool.not_eq_true]
    intro hxf
    exact hgf (BEq.trans hgx hxf)

end Filter

/-- the entries under each key -/
abbrev Shelves : Type := String → List (Constant × EvaluatorId)

/-- the sets of handles of evaluators that have one -/
abbrev Sets : Type := EvaluatorId → Option HandleSet

/-- a handle stands under a constant in the index under a key -/
def Stands (u : Shelves) (sets : Sets) (k : String) (c : Constant) (h : Handle) : Prop :=
  ∃ e ∈ u k, e.1 == c ∧ ∃ set, sets e.2 = some set ∧ h ∈ set.toList

structure Ledger (u : Shelves) (sets : Sets) (fs : List Filter) : Prop where
  /-- a constant has one entry -/
  single : ∀ k, (u k).Pairwise fun e e' => (e.1 == e'.1) = false
  /-- the constant of an entry is equal to itself, so the entry can be found -/
  findable : ∀ {k e}, e ∈ u k → e.1 == e.1
  /-- the evaluator of an entry is a set of handles, and not an empty one -/
  filled : ∀ {k e}, e ∈ u k → ∃ set, sets e.2 = some set ∧ set.toList ≠ []
  /-- entries do not share evaluators -/
  unshared : ∀ {k k' e e'}, e ∈ u k → e' ∈ u k' → e.2 = e'.2 → k = k' ∧ e = e'
  /-- the filters are what stands in the sets -/
  listed : ∀ {k c h}, fs.contains ⟨k, c, h⟩ = true ↔ Stands u sets k c h

namespace Ledger

variable {u u' : Shelves} {sets sets' : Sets} {fs : List Filter} {k : String} {c : Constant} {h : Handle}
  {e : Constant × EvaluatorId} {set : HandleSet}

theorem nil : Ledger (fun _ => []) sets [] where
  single _ := .nil
  findable he := nomatch he
  filled he := nomatch he
  unshared he := nomatch he
  listed := by
    intro k c h
    constructor
    · intro hf
      cases hf
    · intro hst
      obtain ⟨e, he, -⟩ := hst
      cases he

/-- an entry under a key and a constant is the only one -/
theorem unique (hl : Ledger u sets fs) {e' : Constant × EvaluatorId} (he : e ∈ u k) (he' : e' ∈ u k) (hc : e.1 == c)
    (hc' : e'.1 == c) : e = e' :=
  Table.Distinct.unique (t := ⟨u k⟩) (hl.single k) he he' hc hc'

/-- what stands under the constant of an entry is in the set of that entry -/
theorem stands_iff (hl : Ledger u sets fs) (he : e ∈ u k) (hc : e.1 == c) (hset : sets' e.2 = some set)
    {c' : Constant} (hc' : c' == c) {h' : Handle} : Stands u sets' k c' h' ↔ h' ∈ set.toList := by
  constructor
  · intro hst
    obtain ⟨x, hx, hxc, s, hs, hm⟩ := hst
    obtain rfl := hl.unique hx he (BEq.trans hxc hc') hc
    obtain rfl := Option.some.inj (hset.symm.trans hs)
    exact hm
  · intro hm
    exact ⟨e, he, BEq.trans hc (BEq.symm hc'), set, hset, hm⟩

/-- the set of an entry holds just the handles that are registered under the constant -/
theorem set_of (hl : Ledger u sets fs) (he : e ∈ u k) (hc : e.1 == c) :
    ∃ set, sets e.2 = some set ∧ set.toList ≠ [] ∧ ∀ h, h ∈ set.toList ↔ fs.contains ⟨k, c, h⟩ = true := by
  obtain ⟨set, hset, hne⟩ := hl.filled he
  refine ⟨set, hset, hne, ?_⟩
  intro h
  rw [hl.listed, hl.stands_iff he hc hset (BEq.trans (BEq.symm hc) hc)]

/-- what stands somewhere depends on the sets of the entries there only -/
theorem stands_congr {k' : String} {c' : Constant} (hs : ∀ x ∈ u k', x.1 == c' → sets' x.2 = sets x.2) {h' : Handle} :
    Stands u sets' k' c' h' ↔ Stands u sets k' c' h' := by
  constructor
  · intro hst
    obtain ⟨x, hx, hxc, s, hset, hm⟩ := hst
    exact ⟨x, hx, hxc, s, (hs x hx hxc).symm.trans hset, hm⟩
  · intro hst
    obtain ⟨x, hx, hxc, s, hset, hm⟩ := hst
    exact ⟨x, hx, hxc, s, (hs x hx hxc).trans hset, hm⟩

/-- a ledger is one as well for shelves and sets that look the same -/
theorem congr (hl : Ledger u sets fs) (hu : ∀ k, u' k = u k) (hs : ∀ k, ∀ e ∈ u k, sets' e.2 = sets e.2) :
    Ledger u' sets' fs := by
  obtain rfl : u' = u := funext hu
  exact
  { single := hl.single
    findable := hl.findable
    filled := by
      intro k e he
      rw [hs k e he]
      exact hl.filled he
    unshared := hl.unshared
    listed := by
      intro k c h
      rw [hl.listed, stands_congr fun x hx _ => hs k x hx] }

/-! ## One set changes -/

/-- what the sets hold after one of them has been replaced -/
theorem stands_replace (hl : Ledger u sets fs) (he : e ∈ u k) (hc : e.1 == c) {new : HandleSet}
    (hs : ∀ ev, sets' ev = if ev = e.2 then some new else sets ev) {k' : String} {c' : Constant} {h' : Handle} :
    Stands u sets' k' c' h' ↔ if k' = k ∧ c' == c then h' ∈ new.toList else Stands u sets k' c' h' := by
  split
  · rename_i hkc
    obtain ⟨rfl, hc'⟩ := hkc
    exact hl.stands_iff he hc ((hs e.2).trans (if_pos rfl)) hc'
  · rename_i hkc
    -- an entry elsewhere has another evaluator
    apply stands_congr
    intro x hx hxc
    rw [hs, if_neg]
    intro hev
    obtain ⟨rfl, rfl⟩ := hl.unshared hx he hev
    exact hkc ⟨rfl, BEq.trans (BEq.symm hxc) hc⟩

/-- a replaced set that is not empty leaves the rest of a ledger as it is -/
theorem replace (hl : Ledger u sets fs) (he : e ∈ u k) (hc : e.1 == c) {new : HandleSet} (hnew : new.toList ≠ [])
    (hs : ∀ ev, sets' ev = if ev = e.2 then some new else sets ev) {fs' : List Filter}
    (hfs : ∀ k' c' h', fs'.contains ⟨k', c', h'⟩ = true ↔
      if k' = k ∧ c' == c then h' ∈ new.toList else Stands u sets k' c' h') : Ledger u sets' fs' where
  single := hl.single
  findable := hl.findable
  filled := by
    intro k' x hx
    rw [hs]
    split
    · exact ⟨new, rfl, hnew⟩
    · exact hl.filled hx
  unshared := hl.unshared
  listed := by
    intro k' c' h'
    rw [hfs, hl.stands_replace he hc hs]

/-- a handle joins a set -/
theorem join (hl : Ledger u sets fs) (he : e ∈ u k) (hc : e.1 == c) (hset : sets e.2 = some set)
    (hs : ∀ ev, sets' ev = if ev = e.2 then some (set.insert h) else sets ev) :
    Ledger u sets' (⟨k, c, h⟩ :: fs) := by
  have hne : (set.insert h).toList ≠ [] := List.ne_nil_of_mem (HandleSet.mem_insert.2 (.inl rfl))
  apply hl.replace he hc hne hs
  intro k' c' h'
  rw [Filter.contains_cons, Filter.beq_iff, hl.listed]
  split
  · rename_i hkc
    obtain ⟨rfl, hc'⟩ := hkc
    rw [HandleSet.mem_insert, hl.stands_iff he hc hset hc']
    simp [hc']
  · rename_i hkc
    constructor
    · intro hor
      rcases hor with ⟨rfl, hc', -⟩ | hst
      · exact absurd ⟨rfl, hc'⟩ hkc
      · exact hst
    · exact .inr

/-- a handle leaves a set that has others -/
theorem leave (hl : Ledger u sets fs) (he : e ∈ u k) (hc : e.1 == c) (hset : sets e.2 = some set)
    (hne : (set.erase h).toList ≠ []) (hs : ∀ ev, sets' ev = if ev = e.2 then some (set.erase h) else sets ev) :
    Ledger u sets' (Filter.without fs ⟨k, c, h⟩) := by
  apply hl.replace he hc hne hs
  intro k' c' h'
  rw [Filter.contains_without, Filter.beq_iff, hl.listed]
  split
  · rename_i hkc
    obtain ⟨rfl, hc'⟩ := hkc
    rw [HandleSet.mem_erase, hl.stands_iff he hc hset hc']
    simp [hc']
  · rename_i hkc
    exact ⟨fun hst => hst.2, fun hst => ⟨fun hf => hkc ⟨hf.1, hf.2.1⟩, hst⟩⟩

/-! ## An entry comes or goes -/

/-- a handle comes under a constant that had no entry -/
theorem «open» (hl : Ledger u sets fs) (hlacks : Table.Lacks (u k) c) (hc : c == c) {ev : EvaluatorId}
    (hev : sets ev = none) (hu : u' k ~ (c, ev) :: u k) (hu' : ∀ k', k' ≠ k → u' k' = u k')
    (hs : ∀ ev', sets' ev' = if ev' = ev then some (.singleton h) else sets ev') :
    Ledger u' sets' (⟨k, c, h⟩ :: fs) := by
  have hmem : ∀ {k' x}, x ∈ u' k' ↔ (k' = k ∧ x = (c, ev)) ∨ x ∈ u k' := by
    intro k' x
    by_cases hk : k' = k
    · subst hk
      rw [hu.mem_iff, List.mem_cons]
      simp
    · rw [hu' k' hk]
      simp [hk]
  -- the new evaluator is behind no entry that was there
  have hnew : ∀ {k' x}, x ∈ u k' → x.2 ≠ ev := by
    intro k' x hx hxe
    obtain ⟨set, hset, -⟩ := hl.filled hx
    rw [hxe, hev] at hset
    cases hset
  have hsingle : (HandleSet.singleton h).toList = [h] := rfl
  exact
  { single := by
      intro k'
      by_cases hk : k' = k
      · subst hk
        have hcons : ((c, ev) :: u k').Pairwise fun e e' => (e.1 == e'.1) = false := by
          refine List.pairwise_cons.2 ⟨?_, hl.single k'⟩
          intro x hx
          rw [BEq.comm]
          exact hlacks x hx
        have hopen : Table.Distinct ⟨u' k'⟩ := Table.Distinct.of_perm (t := ⟨(c, ev) :: u k'⟩) hcons hu.symm
        exact hopen
      · rw [hu' k' hk]
        exact hl.single k'
    findable := by
      intro k' x hx
      rcases hmem.1 hx with ⟨-, rfl⟩ | hx
      · exact hc
      · exact hl.findable hx
    filled := by
      intro k' x hx
      rw [hs]
      rcases hmem.1 hx with ⟨-, rfl⟩ | hx
      · exact ⟨.singleton h, if_pos rfl, by simp [hsingle]⟩
      · rw [if_neg (hnew hx)]
        exact hl.filled hx
    unshared := by
      intro k' k'' x y hx hy hxy
      rcases hmem.1 hx with ⟨rfl, rfl⟩ | hx <;> rcases hmem.1 hy with ⟨rfl, rfl⟩ | hy
      · exact ⟨rfl, rfl⟩
      · exact absurd hxy.symm (hnew hy)
      · exact absurd hxy (hnew hx)
      · exact hl.unshared hx hy hxy
    listed := by
      intro k' c' h'
      rw [Filter.contains_cons, Filter.beq_iff, hl.listed]
      constructor
      · intro hor
        rcases hor with ⟨hk, hc', hh⟩ | ⟨x, hx, hxc, set, hset, hm⟩
        · refine ⟨(c, ev), hmem.2 (.inl ⟨hk, rfl⟩), BEq.symm hc', .singleton h, ?_, ?_⟩
          · rw [hs, if_pos rfl]
          · rw [hsingle]
            exact List.mem_singleton.2 hh
        · refine ⟨x, hmem.2 (.inr hx), hxc, set, ?_, hm⟩
          rw [hs, if_neg (hnew hx), hset]
      · intro hst
        obtain ⟨x, hx, hxc, set, hset, hm⟩ := hst
        rw [hs] at hset
        rcases hmem.1 hx with ⟨rfl, rfl⟩ | hx
        · rw [if_pos rfl] at hset
          obtain rfl := Option.some.inj hset
          rw [hsingle, List.mem_singleton] at hm
          exact .inl ⟨rfl, BEq.symm hxc, hm⟩
        · rw [if_neg (hnew hx)] at hset
          exact .inr ⟨x, hx, hxc, set, hset, hm⟩ }

/-- a handle leaves a set that it was alone in, and the entry goes -/
theorem close (hl : Ledger u sets fs) (he : e ∈ u k) (hc : e.1 == c) (hset : sets e.2 = some set)
    (hnil : (set.erase h).toList = []) (hu : u' k = (u k).filter fun e => !(e.1 == c)) (hu' : ∀ k', k' ≠ k → u' k' = u k')
    (hs : ∀ ev, ev ≠ e.2 → sets' ev = sets ev) : Ledger u' sets' (Filter.without fs ⟨k, c, h⟩) := by
  have hmem : ∀ {k' x}, x ∈ u' k' ↔ x ∈ u k' ∧ ¬(k' = k ∧ x.1 == c) := by
    intro k' x
    by_cases hk : k' = k
    · subst hk
      rw [hu, List.mem_filter]
      simp
    · rw [hu' k' hk]
      simp [hk]
  -- the entries that stay have other evaluators
  have hother : ∀ {k' x}, x ∈ u' k' → sets' x.2 = sets x.2 := by
    intro k' x hx
    apply hs
    intro hxe
    obtain ⟨hx, hkc⟩ := hmem.1 hx
    obtain ⟨rfl, rfl⟩ := hl.unshared hx he hxe
    exact hkc ⟨rfl, hc⟩
  exact
  { single := by
      intro k'
      by_cases hk : k' = k
      · subst hk
        rw [hu]
        exact (hl.single k').filter _
      · rw [hu' k' hk]
        exact hl.single k'
    findable := fun hx => hl.findable (hmem.1 hx).1
    filled := by
      intro k' x hx
      rw [hother hx]
      exact hl.filled (hmem.1 hx).1
    unshared := fun hx hy hxy => hl.unshared (hmem.1 hx).1 (hmem.1 hy).1 hxy
    listed := by
      intro k' c' h'
      rw [Filter.contains_without, Filter.beq_iff, hl.listed]
      constructor
      · intro hand
        obtain ⟨hne, x, hx, hxc, s, hs', hm⟩ := hand
        have hstay : ¬(k' = k ∧ x.1 == c) := by
          intro hkc
          obtain ⟨rfl, hxc'⟩ := hkc
          -- the handle is not the one that leaves, so the set keeps it
          obtain rfl := hl.unique hx he hxc' hc
          obtain rfl := Option.some.inj (hset.symm.trans hs')
          have hkept : h' ∈ (set.erase h).toList :=
            HandleSet.mem_erase.2 ⟨fun hh => hne ⟨rfl, BEq.trans (BEq.symm hxc) hxc', hh⟩, hm⟩
          rw [hnil] at hkept
          cases hkept
        have hx' := hmem.2 ⟨hx, hstay⟩
        exact ⟨x, hx', hxc, s, (hother hx').trans hs', hm⟩
      · intro hst
        obtain ⟨x, hx, hxc, s, hs', hm⟩ := hst
        rw [hother hx] at hs'
        obtain ⟨hx, hstay⟩ := hmem.1 hx
        exact ⟨fun hf => hstay ⟨hf.1, BEq.trans hxc hf.2.1⟩, x, hx, hxc, s, hs', hm⟩ }

/-- taking back a filter that is not there changes nothing -/
theorem miss (hl : Ledger u sets fs) (hlacks : Table.Lacks (u k) c) : Ledger u sets (Filter.without fs ⟨k, c, h⟩) where
  single := hl.single
  findable := hl.findable
  filled := hl.filled
  unshared := hl.unshared
  listed := by
    intro k' c' h'
    rw [Filter.contains_without, Filter.beq_iff, hl.listed]
    refine ⟨fun hst => hst.2, fun hst => ⟨?_, hst⟩⟩
    intro hf
    obtain ⟨rfl, hc', -⟩ := hf
    obtain ⟨x, hx, hxc, -⟩ := hst
    have hne := hlacks x hx
    rw [BEq.trans hxc hc'] at hne
    cases hne

end Ledger
end EventMatching
