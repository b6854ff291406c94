/-
Indexes as maps from constants to evaluators.

`Index.contents` lists what an index holds, by constants, whichever kind it is. On a `Sound` index, look-up, storing and
removal are those of a table of constants (`get?_ok`, `put_ok`, `remove_ok`); they fail before anything is changed, and a
removal does not fail where a look-up did not. Catalogs made of the builders for equality and for areas are `Faithful`:
they build empty indexes that serve what they were asked for (`build_ok`). `run` carries out a list of calls that store
and remove.
-/
import EventMatching.Index.Catalog
import EventMatching.Proofs.Quadtree.Runs
import EventMatching.Proofs.Value

namespace EventMatching

open scoped List

variable {E : Type}

namespace Index

/-- the constants of an index with their evaluators -/
def contents : Index E → Table Constant E
  | equality _ t => t.rename .value
  | area _ t => t.root.contents.rename .rect

/-- what an index is built on is in order -/
def Sound : Index E → Prop
  | equality _ t => t.Distinct
  | area _ t => t.Sound

theorem Sound.distinct {ix : Index E} (h : ix.Sound) : ix.contents.Distinct := by
  cases ix with
  | equality f t => exact Table.Distinct.rename Constant.value_beq h
  | area a t => exact Table.Distinct.rename Constant.rect_beq h.placed.contents_distinct

/-! ## Look-up -/

theorem get?_ok {ix : Index E} (h : ix.Sound) {c : Constant} {found : Option E} (hg : ix.get? c = .ok found) :
    found = ix.contents.get? c := by
  cases ix with
  | equality f t =>
    cases c with
    | value v =>
      calc found
        _ = t.get? v := (Except.ok.inj hg).symm
        _ = (t.rename .value).get? (Constant.value v) := (Table.get?_rename Constant.value_beq t v).symm
    | rect r => cases hg
  | area a t =>
    cases c with
    | value v => cases hg
    | rect r =>
      calc found
        _ = t.get? r := (Except.ok.inj hg).symm
        _ = t.root.contents.get? r := h.get?_eq r
        _ = (t.root.contents.rename .rect).get? (Constant.rect r) :=
          (Table.get?_rename Constant.rect_beq t.root.contents r).symm

/-- a look-up fails only for constants of a kind that the index never holds -/
theorem get?_error {ix : Index E} {c : Constant} {err : Error} (hg : ix.get? c = .error err) :
    Table.Lacks ix.contents.entries c := by
  intro e he
  cases ix with
  | equality f t =>
    cases c with
    | value v => cases hg
    | rect r =>
      obtain ⟨x, -, rfl⟩ := List.mem_map.1 he
      rfl
  | area a t =>
    cases c with
    | value v =>
      obtain ⟨x, -, rfl⟩ := List.mem_map.1 he
      rfl
    | rect r => cases hg

/-! ## Storing and removal -/

/-- what a change to an index leaves as it was -/
structure Serves (ix ix' : Index E) : Prop where
  operator : ix'.operator = ix.operator
  lookup : ix'.lookup = ix.lookup

/-- storing under a constant that is not equal to itself fails -/
theorem put_ok {ix ix' : Index E} (h : ix.Sound) {c : Constant} {ev : E} (hp : ix.put c ev = .ok ix') :
    ix'.Sound ∧ ix.Serves ix' ∧ c == c ∧ ix'.contents.entries ~ (ix.contents.insert c ev).entries := by
  cases ix with
  | equality f t =>
    cases c with
    | value v =>
      obtain rfl := Except.ok.inj hp
      refine ⟨Table.Distinct.insert h v ev, ⟨rfl, rfl⟩, (BEq.rfl : v == v), ?_⟩
      apply List.Perm.of_eq
      rw [contents, contents, Table.insert_rename Constant.value_beq]
    | rect r => cases hp
  | area a t =>
    cases c with
    | value v => cases hp
    | rect r =>
      simp only [put, rectOf, t.insert_eq h] at hp
      by_cases hv : r.isValid = true
      · by_cases hc : t.covers r = true
        · simp only [hv, hc, Bool.not_true, Bool.false_eq_true, if_false] at hp
          obtain rfl := Except.ok.inj hp
          have hacc : Quadtree.accepts t.region r = true := Bool.and_eq_true_iff.2 ⟨hv, hc⟩
          refine ⟨h.insert ev hacc, ⟨rfl, rfl⟩, ?_, ?_⟩
          · exact (Rect.beq_self_of_isValid hv : r == r)
          · have hi := (h.placed.insert_toList h.rooted r ev).2
            calc ((t.root.insert t.region r ev).2.contents.rename Constant.rect).entries
              _ ~ ((t.root.contents.insert r ev).rename Constant.rect).entries := hi.map _
              _ = ((t.root.contents.rename .rect).insert (Constant.rect r) ev).entries := by
                rw [Table.insert_rename Constant.rect_beq]
        · simp [hv, hc] at hp
      · simp [hv] at hp

theorem remove_ok {ix ix' : Index E} (h : ix.Sound) {c : Constant} (hr : ix.remove c = .ok ix') :
    ix'.Sound ∧ ix.Serves ix' ∧ ix'.contents.entries = ix.contents.entries.filter fun e => !(e.1 == c) := by
  cases ix with
  | equality f t =>
    cases c with
    | value v =>
      obtain rfl := Except.ok.inj hr
      refine ⟨Table.Distinct.erase h v, ⟨rfl, rfl⟩, ?_⟩
      have := Table.erase_rename Constant.value_beq t v
      rw [contents, ← this, Table.erase_entries (Table.Distinct.rename Constant.value_beq h)]
      rfl
    | rect r => cases hr
  | area a t =>
    cases c with
    | value v => cases hr
    | rect r =>
      obtain rfl := Except.ok.inj hr
      refine ⟨h.remove r, ⟨rfl, rfl⟩, ?_⟩
      obtain ⟨-, -, hl⟩ := t.remove_eq h r
      simp only [contents, Table.rename, Subtree.contents, hl, List.filter_map]
      rfl

/-- a removal fails only if a look-up does -/
theorem remove_of_get? {ix : Index E} {c : Constant} {found : Option E} (hg : ix.get? c = .ok found) :
    ∃ ix', ix.remove c = .ok ix' := by
  cases ix with
  | equality f t =>
    cases c with
    | value v => exact ⟨_, rfl⟩
    | rect r => cases hg
  | area a t =>
    cases c with
    | value v => cases hg
    | rect r => exact ⟨_, rfl⟩

theorem isEmpty_iff {ix : Index E} : ix.isEmpty = true ↔ ix.contents.entries = [] := by
  cases ix with
  | equality f t => simp [isEmpty, contents, Table.rename, Table.isEmpty]
  | area a t =>
    have := Quadtree.isEmpty_iff t.root
    simp [isEmpty, contents, Table.rename, Subtree.contents, Quadtree.isEmpty, this]

/-- the size of an index is the number of its entries -/
theorem size_eq (ix : Index E) : ix.size = ix.contents.entries.length := by
  cases ix with
  | equality f t => simp [size, contents, Table.rename, Table.size]
  | area a t =>
    have := Quadtree.count_eq t.root
    simp [size, contents, Table.rename, Subtree.contents, Quadtree.count, this]

theorem size_eq_zero_iff {ix : Index E} : ix.size = 0 ↔ ix.isEmpty = true := by
  rw [size_eq, isEmpty_iff, List.length_eq_zero_iff]

/-! ## Runs -/

/-- a call that changes an index -/
inductive Change (E : Type) where
  | put (c : Constant) (ev : E)
  | remove (c : Constant)

/-- the constant that a call is about -/
def Change.constant : Change E → Constant
  | put c _ | remove c => c

/-- how a call ends -/
def apply (ix : Index E) : Change E → Except Error (Index E)
  | .put c ev => ix.put c ev
  | .remove c => ix.remove c

/-- the index after a call; a call that fails leaves it as it was -/
def step (ix : Index E) (call : Change E) : Index E := (ix.apply call).toOption.getD ix

def run (ix : Index E) (calls : List (Change E)) : Index E := calls.foldl step ix

theorem Serves.refl (ix : Index E) : ix.Serves ix := ⟨rfl, rfl⟩

theorem Serves.trans {ix ix' ix'' : Index E} (h : ix.Serves ix') (h' : ix'.Serves ix'') : ix.Serves ix'' :=
  ⟨h'.operator.trans h.operator, h'.lookup.trans h.lookup⟩

theorem Sound.step {ix : Index E} (h : ix.Sound) (call : Change E) : (ix.step call).Sound ∧ ix.Serves (ix.step call) := by
  unfold Index.step
  cases hr : ix.apply call with
  | error e => exact ⟨h, .refl ix⟩
  | ok ix' =>
    cases call with
    | put c ev =>
      obtain ⟨hsound, hserves, -⟩ := put_ok h hr
      exact ⟨hsound, hserves⟩
    | remove c =>
      obtain ⟨hsound, hserves, -⟩ := remove_ok h hr
      exact ⟨hsound, hserves⟩

/-- **An index stays sound and serves the same**, whatever is stored and removed. -/
theorem Sound.run {ix : Index E} (h : ix.Sound) (calls : List (Change E)) :
    (ix.run calls).Sound ∧ ix.Serves (ix.run calls) := by
  induction calls generalizing ix with
  | nil => exact ⟨h, .refl ix⟩
  | cons call calls ih =>
    obtain ⟨hsound, hserves⟩ := h.step call
    obtain ⟨hsound', hserves'⟩ := ih hsound
    exact ⟨hsound', hserves.trans hserves'⟩

/-! ## Building -/

/-- an index as it is built: it holds nothing, and serves the operator and the lookup that it was asked for -/
structure Fresh (op : Operator) (l : Lookup) (ix : Index E) : Prop where
  sound : ix.Sound
  empty : ix.contents.entries = []
  operator : ix.operator = op
  lookup : ix.lookup = l

end Index

/-- for the operator, the builder makes nothing but fresh indexes -/
def Builder.Faithful (op : Operator) (b : Builder E) : Prop := ∀ l ix, b op l = .ok ix → ix.Fresh op l

theorem Builder.equality_faithful : (equality : Builder E).Faithful .equal := by
  intro l ix h
  cases l with
  | field f =>
    obtain rfl := Except.ok.inj h
    exact ⟨.nil, rfl, rfl, rfl⟩
  | area a => cases h

theorem Builder.area_faithful : (area : Builder E).Faithful .area := by
  intro l ix h
  cases l with
  | field f => cases h
  | area a =>
    simp only [Builder.area, Index.ofArea] at h
    split at h
    · rename_i t ht
      obtain rfl := Except.ok.inj h
      obtain rfl := Quadtree.new_eq_ok ht
      exact ⟨Quadtree.sound_empty a.region, rfl, rfl, rfl⟩
    · cases h

namespace Catalog

/-- every builder is faithful to the operator that it serves -/
def Faithful (c : Catalog E) : Prop := ∀ op b, c.builder op = some b → b.Faithful op

theorem basic_faithful : (basic : Catalog E).Faithful := by
  intro op b h
  cases op with
  | equal => obtain rfl := Option.some.inj h; exact Builder.equality_faithful
  | area => cases h

theorem Faithful.register {c : Catalog E} (h : c.Faithful) {op : Operator} {b : Builder E} (hb : b.Faithful op) :
    (c.register op b).Faithful := by
  intro o b' ho
  simp only [Catalog.register] at ho
  split at ho
  · rename_i hop
    obtain rfl := Option.some.inj ho
    exact hop ▸ hb
  · exact h o b' ho

theorem spatial_faithful : (spatial : Catalog E).Faithful := basic_faithful.register Builder.area_faithful

theorem Faithful.build_ok {c : Catalog E} (h : c.Faithful) {op : Operator} {l : Lookup} {ix : Index E}
    (hb : c.build op l = .ok ix) : ix.Fresh op l := by
  unfold build at hb
  split at hb
  · rename_i b hop
    exact h op b hop l ix hb
  · cases hb

end Catalog
end EventMatching
