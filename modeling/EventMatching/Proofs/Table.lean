/-
Tables as maps, up to the order of their entries.

The keys of a table that is `Distinct` are pairwise unequal. On such tables an erasure keeps the entries under other keys
(`erase_entries`), an insertion puts one entry in place of those under the key (`insert_perm`), overwriting the value if
there is one (`insert_of_held`), and two tables that hold the same entries in any order answer alike and stay so
(`get?_of_perm`, `insert_of_perm`, `erase_of_perm`). Of tables made of parts only the part that does not lack a key matters
to the key (`get?_parts`, `insert_parts`), and none of this depends on what the keys are called (`get?_rename`,
`insert_rename`, `erase_rename`).
-/
import EventMatching.Table

namespace EventMatching
namespace Table

open scoped List

variable {κ α : Type} [BEq κ]

/-- no entry is under a key equal to `k` -/
def Lacks (es : List (κ × α)) (k : κ) : Prop := ∀ e ∈ es, (e.1 == k) = false

/-- the key that a table holds for `k`, or `k` itself if it holds none -/
def keyFor (t : Table κ α) (k : κ) : κ := ((t.entries.find? fun e => e.1 == k).map (·.1)).getD k

/-! ## The entries under one key -/

theorem get?_eq_none_iff {t : Table κ α} {k : κ} : t.get? k = none ↔ Lacks t.entries k := by
  simp [get?, List.find?_eq_none, Lacks]

theorem mem_of_get? {t : Table κ α} {k : κ} {a : α} (h : t.get? k = some a) : ∃ e ∈ t.entries, e.1 == k ∧ e.2 = a := by
  simp only [get?, Option.map_eq_some_iff] at h
  obtain ⟨e, he, rfl⟩ := h
  have hk := List.find?_some he
  exact ⟨e, List.mem_of_find?_eq_some he, hk, rfl⟩

theorem lacks_nil (k : κ) : Lacks ([] : List (κ × α)) k := fun _ he => nomatch he

theorem Lacks.filter_not {es : List (κ × α)} {k : κ} (h : Lacks es k) : es.filter (fun e => !(e.1 == k)) = es := by
  rw [List.filter_eq_self]
  intro e he
  rw [h e he]
  rfl

theorem Lacks.filter_eq_nil {es : List (κ × α)} {k : κ} (h : Lacks es k) : es.filter (fun e => e.1 == k) = [] := by
  rw [List.filter_eq_nil_iff]
  intro e he
  simp [h e he]

variable [PartialEquivBEq κ]

/-- behind an entry under a key, a distinct list has no other under that key -/
theorem lacks_of_pairwise_cons {x : κ × α} {xs : List (κ × α)} {k : κ} (hx : (x.1 == k) = true)
    (h : ∀ e ∈ xs, (x.1 == e.1) = false) : Lacks xs k := by
  intro e he
  cases hk : e.1 == k with
  | false => rfl
  | true =>
    have := h e he
    rw [BEq.trans hx (BEq.symm hk)] at this
    cases this

/-- in a distinct table, the entry under a key is the one that is found -/
theorem find?_eq_some_iff {t : Table κ α} (h : t.Distinct) {k : κ} {e : κ × α} :
    (t.entries.find? fun e => e.1 == k) = some e ↔ e ∈ t.entries ∧ e.1 == k := by
  constructor
  · intro he
    have hk := List.find?_some he
    exact ⟨List.mem_of_find?_eq_some he, hk⟩
  intro hmem
  obtain ⟨he, hk⟩ := hmem
  obtain ⟨es⟩ := t
  simp only [Distinct] at h he ⊢
  induction es with
  | nil => cases he
  | cons x xs ih =>
    rw [List.pairwise_cons] at h
    rw [List.find?_cons]
    cases hx : x.1 == k with
    | true =>
      rcases List.mem_cons.1 he with rfl | he
      · rfl
      · rw [lacks_of_pairwise_cons hx h.1 e he] at hk
        cases hk
    | false =>
      rcases List.mem_cons.1 he with rfl | he
      · rw [hx] at hk; cases hk
      · exact ih h.2 he

theorem get?_eq_some_iff {t : Table κ α} (h : t.Distinct) {k : κ} {a : α} :
    t.get? k = some a ↔ ∃ e ∈ t.entries, e.1 == k ∧ e.2 = a := by
  refine ⟨mem_of_get?, ?_⟩
  intro hex
  obtain ⟨e, he, hk, ha⟩ := hex
  rw [get?, (find?_eq_some_iff h).2 ⟨he, hk⟩, Option.map_some, ha]

/-- two entries of a distinct table under one key are the same entry -/
theorem Distinct.unique {t : Table κ α} (h : t.Distinct) {k : κ} {e e' : κ × α} (he : e ∈ t.entries)
    (he' : e' ∈ t.entries) (hk : e.1 == k) (hk' : e'.1 == k) : e = e' := by
  have h1 := (find?_eq_some_iff h).2 ⟨he, hk⟩
  rw [(find?_eq_some_iff h).2 ⟨he', hk'⟩] at h1
  exact (Option.some.inj h1).symm

/-- under one key a distinct table has the entry that `get?` finds, and no second -/
theorem filter_key {t : Table κ α} (h : t.Distinct) (k : κ) :
    (t.entries.filter fun e => e.1 == k).map (·.2) = (t.get? k).toList := by
  obtain ⟨es⟩ := t
  simp only [Distinct, get?] at h ⊢
  induction es with
  | nil => rfl
  | cons x xs ih =>
    rw [List.pairwise_cons] at h
    cases hx : x.1 == k with
    | true => simp [hx, (lacks_of_pairwise_cons hx h.1).filter_eq_nil]
    | false => simpa [hx] using ih h.2

/-! ## Insertion and erasure -/

theorem erase_entries {t : Table κ α} (h : t.Distinct) (k : κ) :
    (t.erase k).entries = t.entries.filter fun e => !(e.1 == k) := by
  obtain ⟨es⟩ := t
  simp only [Distinct, erase] at h ⊢
  induction es with
  | nil => rfl
  | cons x xs ih =>
    rw [List.pairwise_cons] at h
    cases hx : x.1 == k with
    | true => simp [hx, (lacks_of_pairwise_cons hx h.1).filter_not]
    | false => simp [hx, ih h.2]

omit [PartialEquivBEq κ] in
theorem insert_of_lacks {t : Table κ α} {k : κ} (h : Lacks t.entries k) (a : α) :
    (t.insert k a).entries = t.entries ++ [(k, a)] := by
  obtain ⟨es⟩ := t
  simp only [insert] at h ⊢
  induction es with
  | nil => rfl
  | cons x xs ih =>
    have hx := h x List.mem_cons_self
    simp [insertInto, hx, ih fun e he => h e (List.mem_cons_of_mem _ he)]

omit [PartialEquivBEq κ] in
/-- erasing a new key undoes its insertion -/
theorem erase_insert {t : Table κ α} {k : κ} (h : Lacks t.entries k) (hk : k == k) (a : α) :
    (t.insert k a).erase k = t := by
  have hnone : ∀ e ∈ t.entries, ¬(e.1 == k) = true := fun e he => by rw [h e he]; exact Bool.false_ne_true
  have hlast : [(k, a)].eraseP (fun e => e.1 == k) = [] := List.eraseP_cons_of_pos (p := fun e : κ × α => e.1 == k) hk
  rw [erase, insert_of_lacks h a, List.eraseP_append_right _ hnone, hlast, List.append_nil]

/-- the table with another value wherever it holds the key; nothing else is different -/
def overwrite (t : Table κ α) (k : κ) (a : α) : Table κ α :=
  ⟨t.entries.map fun e => if e.1 == k then (e.1, a) else e⟩

omit [PartialEquivBEq κ] in
theorem overwrite_of_lacks {t : Table κ α} {k : κ} (h : Lacks t.entries k) (a : α) : t.overwrite k a = t := by
  have hmap : t.entries.map (fun e => if e.1 == k then (e.1, a) else e) = t.entries.map id :=
    List.map_congr_left fun e he => by rw [h e he, if_neg Bool.false_ne_true, id]
  rw [overwrite, hmap, List.map_id]

omit [PartialEquivBEq κ] in
theorem erase_of_lacks {t : Table κ α} {k : κ} (h : Lacks t.entries k) : t.erase k = t := by
  rw [erase, List.eraseP_of_forall_not fun e he => by rw [h e he]; exact Bool.false_ne_true]

/-- inserting a key that a distinct table holds overwrites its value -/
theorem insert_of_held {t : Table κ α} (h : t.Distinct) {k : κ} (hk : ¬Lacks t.entries k) (a : α) :
    t.insert k a = t.overwrite k a := by
  obtain ⟨es⟩ := t
  simp only [Distinct, insert, overwrite, mk.injEq] at h hk ⊢
  induction es with
  | nil => exact absurd (lacks_nil k) hk
  | cons x xs ih =>
    rw [List.pairwise_cons] at h
    cases hx : x.1 == k with
    | true =>
      have hrest : (⟨xs⟩ : Table κ α).overwrite k a = ⟨xs⟩ := overwrite_of_lacks (lacks_of_pairwise_cons hx h.1) a
      simp only [overwrite, mk.injEq] at hrest
      simp only [insertInto, hx, if_true, List.map_cons, hrest]
    | false =>
      have hxs : ¬Lacks xs k := fun hl => hk (List.forall_mem_cons.2 ⟨hx, hl⟩)
      simp only [insertInto, hx, Bool.false_eq_true, if_false, List.map_cons, ih h.2 hxs]

/-- what a distinct table holds under a key is one entry among others under other keys -/
theorem exists_split {t : Table κ α} (h : t.Distinct) {k : κ} {a : α} (hk : t.get? k = some a) :
    ∃ xs k' zs, t.entries = xs ++ (k', a) :: zs ∧ (k' == k) = true ∧ Lacks xs k ∧ Lacks zs k := by
  obtain ⟨e, he, hek, rfl⟩ := mem_of_get? hk
  obtain ⟨xs, zs, hsplit⟩ := List.append_of_mem he
  rw [Distinct, hsplit, List.pairwise_append, List.pairwise_cons] at h
  obtain ⟨-, ⟨hzs, -⟩, hxs⟩ := h
  refine ⟨xs, e.1, zs, hsplit, hek, ?_, lacks_of_pairwise_cons hek hzs⟩
  intro x hx
  cases hxk : x.1 == k with
  | false => rfl
  | true =>
    have := hxs x hx e List.mem_cons_self
    rw [BEq.trans hxk (BEq.symm hek)] at this
    cases this

omit [PartialEquivBEq κ] in
/-- overwriting the one value under a key leaves what is before and behind it -/
theorem overwrite_split {t : Table κ α} {xs zs : List (κ × α)} {k k' : κ} {a b : α} (h : t.entries = xs ++ (k', b) :: zs)
    (hk : (k' == k) = true) (hx : Lacks xs k) (hz : Lacks zs k) : (t.overwrite k a).entries = xs ++ (k', a) :: zs := by
  have hxs := congrArg entries (overwrite_of_lacks (t := ⟨xs⟩) hx a)
  have hzs := congrArg entries (overwrite_of_lacks (t := ⟨zs⟩) hz a)
  simp only [overwrite] at hxs hzs ⊢
  rw [h, List.map_append, List.map_cons, hxs, hzs, if_pos hk]

/-- an insertion leaves the entries under other keys, and one entry under the key that was there before, if one was -/
theorem insert_perm {t : Table κ α} (h : t.Distinct) (k : κ) (a : α) :
    (t.insert k a).entries ~ (t.keyFor k, a) :: t.entries.filter fun e => !(e.1 == k) := by
  obtain ⟨es⟩ := t
  simp only [Distinct, insert, keyFor] at h ⊢
  induction es with
  | nil => simp [insertInto]
  | cons x xs ih =>
    rw [List.pairwise_cons] at h
    cases hx : x.1 == k with
    | true => simp [insertInto, hx, (lacks_of_pairwise_cons hx h.1).filter_not]
    | false =>
      simp only [insertInto, hx, Bool.false_eq_true, if_false, List.find?_cons, Bool.not_false, List.filter_cons, if_true]
      exact ((ih h.2).cons x).trans (.swap ..)

/-! ## Tables with the same entries -/

section Perm

variable {t t' : Table κ α} (h : t.Distinct) (hp : t.entries ~ t'.entries)

include h hp

theorem Distinct.of_perm : t'.Distinct :=
  hp.pairwise h fun hxy => by rw [BEq.comm]; exact hxy

theorem find?_of_perm (k : κ) : (t.entries.find? fun e => e.1 == k) = t'.entries.find? fun e => e.1 == k := by
  apply Option.ext
  intro e
  rw [find?_eq_some_iff h, find?_eq_some_iff (h.of_perm hp), hp.mem_iff]

theorem get?_of_perm (k : κ) : t.get? k = t'.get? k := by rw [get?, get?, find?_of_perm h hp k]

theorem insert_of_perm (k : κ) (a : α) : (t.insert k a).entries ~ (t'.insert k a).entries := by
  have hk : t.keyFor k = t'.keyFor k := by rw [keyFor, keyFor, find?_of_perm h hp k]
  calc (t.insert k a).entries
    _ ~ (t.keyFor k, a) :: t.entries.filter fun e => !(e.1 == k) := insert_perm h k a
    _ ~ (t'.keyFor k, a) :: t'.entries.filter fun e => !(e.1 == k) := by rw [hk]; exact (hp.filter _).cons _
    _ ~ (t'.insert k a).entries := (insert_perm (h.of_perm hp) k a).symm

theorem erase_of_perm (k : κ) : (t.erase k).entries ~ (t'.erase k).entries := by
  rw [erase_entries h, erase_entries (h.of_perm hp)]
  exact hp.filter _

end Perm

/-! ## Tables made of parts -/

section Parts

variable {xs zs : List (κ × α)} {k : κ} (hx : Lacks xs k) (hz : Lacks zs k) (ys : List (κ × α))

include hx hz

omit [PartialEquivBEq κ]

theorem get?_parts : (⟨xs ++ ys ++ zs⟩ : Table κ α).get? k = (⟨ys⟩ : Table κ α).get? k := by
  have hx' : (xs.find? fun e => e.1 == k) = none := by simpa [List.find?_eq_none, Lacks] using hx
  have hz' : (zs.find? fun e => e.1 == k) = none := by simpa [List.find?_eq_none, Lacks] using hz
  simp only [get?, List.find?_append, hx', hz', Option.none_or, Option.or_none]

theorem filter_parts : ((xs ++ ys ++ zs).filter fun e => !(e.1 == k)) = xs ++ (ys.filter fun e => !(e.1 == k)) ++ zs := by
  rw [List.filter_append, List.filter_append, hx.filter_not, hz.filter_not]

theorem insert_parts (a : α) :
    ((⟨xs ++ ys ++ zs⟩ : Table κ α).insert k a).entries ~ xs ++ ((⟨ys⟩ : Table κ α).insert k a).entries ++ zs := by
  simp only [insert]
  induction xs with
  | cons x xs ih =>
    have hxk := hx x List.mem_cons_self
    simp only [List.cons_append, insertInto, hxk, Bool.false_eq_true, if_false]
    exact (ih fun e he => hx e (List.mem_cons_of_mem _ he)).cons x
  | nil =>
    simp only [List.nil_append]
    induction ys with
    | nil =>
      have := insert_of_lacks (t := ⟨zs⟩) hz a
      simp only [insert] at this
      rw [List.nil_append, this]
      exact List.perm_append_comm
    | cons y ys ih =>
      simp only [List.cons_append, insertInto]
      split
      · exact .refl _
      · exact ih.cons y

end Parts

/-! ## Tables under other names for their keys -/

section Rename

variable {ι : Type} [BEq ι]

/-- the table with other names for its keys -/
def rename (f : κ → ι) (t : Table κ α) : Table ι α := ⟨t.entries.map fun e => (f e.1, e.2)⟩

omit [PartialEquivBEq κ]

variable {f : κ → ι} (hf : ∀ a b, (f a == f b) = (a == b)) (t : Table κ α) (k : κ)

include hf

theorem get?_rename : (t.rename f).get? (f k) = t.get? k := by
  have hc : ((fun e : ι × α => e.1 == f k) ∘ fun e : κ × α => (f e.1, e.2)) = fun e => e.1 == k := by
    funext e
    exact hf e.1 k
  rw [get?, get?, rename, List.find?_map, hc, Option.map_map]
  rfl

theorem insert_rename (a : α) : (t.rename f).insert (f k) a = (t.insert k a).rename f := by
  obtain ⟨es⟩ := t
  simp only [rename, insert, mk.injEq]
  induction es with
  | nil => rfl
  | cons x xs ih =>
    simp only [List.map_cons, insertInto, hf]
    split
    · rfl
    · rw [List.map_cons, ih]

theorem erase_rename : (t.rename f).erase (f k) = (t.erase k).rename f := by
  have hc : ((fun e : ι × α => e.1 == f k) ∘ fun e : κ × α => (f e.1, e.2)) = fun e => e.1 == k := by
    funext e
    exact hf e.1 k
  rw [erase, erase, rename, rename, List.eraseP_map, hc]

theorem Distinct.rename {t : Table κ α} (h : t.Distinct) : (t.rename f).Distinct :=
  List.pairwise_map.2 (List.Pairwise.imp (fun {a b} hab => by rw [hf]; exact hab) h)

end Rename

end Table
end EventMatching
