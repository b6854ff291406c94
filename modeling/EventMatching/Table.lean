/-
Tables: values by key, in the order in which their keys came in.

Keys are compared by `==`. Inserting under a key that the table holds replaces the value and keeps the stored key and its
place; a new key goes to the end, and erasing closes the gap.
-/

namespace EventMatching

structure Table (κ α : Type) where
  entries : List (κ × α)
deriving DecidableEq

namespace Table

variable {κ α : Type}

def empty : Table κ α := ⟨[]⟩

instance : Inhabited (Table κ α) := ⟨empty⟩

def size (t : Table κ α) : Nat := t.entries.length

def isEmpty (t : Table κ α) : Bool := t.entries.isEmpty

def values (t : Table κ α) : List α := t.entries.map (·.2)

variable [BEq κ]

/-- the value under the first key equal to `k` -/
def get? (t : Table κ α) (k : κ) : Option α := (t.entries.find? fun e => e.1 == k).map (·.2)

/-- `insert` on the list of entries -/
def insertInto (k : κ) (a : α) : List (κ × α) → List (κ × α)
  | [] => [(k, a)]
  | e :: es => if e.1 == k then (e.1, a) :: es else e :: insertInto k a es

/-- puts a value under a key -/
def insert (t : Table κ α) (k : κ) (a : α) : Table κ α := ⟨insertInto k a t.entries⟩

/-- removes the first key equal to `k` with its value -/
def erase (t : Table κ α) (k : κ) : Table κ α := ⟨t.entries.eraseP fun e => e.1 == k⟩

/-! ## Lemmas -/

theorem find?_insertInto [PartialEquivBEq κ] (k k' : κ) (a : α) (es : List (κ × α)) :
    ((insertInto k a es).find? fun e => e.1 == k').map (·.2) =
      if k == k' then some a else (es.find? fun e => e.1 == k').map (·.2) := by
  induction es with
  | nil => simp only [insertInto, List.find?_cons]; split <;> simp_all
  | cons e es ih =>
    simp only [insertInto]
    split
    · rename_i hek
      have : (e.1 == k') = (k == k') := by
        rw [Bool.eq_iff_iff]
        exact ⟨fun h => BEq.trans (BEq.symm hek) h, fun h => BEq.trans hek h⟩
      simp only [List.find?_cons, this]
      split <;> simp_all
    · rename_i hek
      simp only [List.find?_cons]
      by_cases h : (e.1 == k') = true
      · have : ¬(k == k') = true := fun hk => hek (BEq.trans h (BEq.symm hk))
        simp [h, this]
      · simp only [h]
        exact ih

/-- after an insertion the key, and every key equal to it, has the new value -/
theorem get?_insert [PartialEquivBEq κ] (t : Table κ α) (k k' : κ) (a : α) :
    (t.insert k a).get? k' = if k == k' then some a else t.get? k' := find?_insertInto k k' a t.entries

/-- no two keys are equal -/
def Distinct (t : Table κ α) : Prop := t.entries.Pairwise fun e e' => (e.1 == e'.1) = false

theorem find?_eraseP [PartialEquivBEq κ] (k k' : κ) (es : List (κ × α))
    (h : es.Pairwise fun e e' => (e.1 == e'.1) = false) :
    ((es.eraseP fun e => e.1 == k).find? fun e => e.1 == k').map (·.2) =
      if k == k' then none else (es.find? fun e => e.1 == k').map (·.2) := by
  induction es with
  | nil => simp
  | cons e es ih =>
    rw [List.pairwise_cons] at h
    by_cases hek : (e.1 == k) = true
    · simp only [List.eraseP_cons, hek, cond_true]
      split
      · rename_i hk
        rw [List.find?_eq_none.2]
        · rfl
        · intro e' he' hk'
          have : (e.1 == e'.1) = true := BEq.trans (BEq.trans hek hk) (BEq.symm hk')
          simp [h.1 e' he'] at this
      · rename_i hk
        have : ¬(e.1 == k') = true := fun h' => hk (BEq.trans (BEq.symm hek) h')
        simp [this]
    · simp only [List.eraseP_cons, hek, cond_false, List.find?_cons]
      by_cases h' : (e.1 == k') = true
      · have : ¬(k == k') = true := fun hk => hek (BEq.trans h' (BEq.symm hk))
        simp [h', this]
      · simp only [h']
        exact ih h.2

/-- after an erasure the key, and every key equal to it, has no value -/
theorem get?_erase [PartialEquivBEq κ] (t : Table κ α) (h : t.Distinct) (k k' : κ) :
    (t.erase k).get? k' = if k == k' then none else t.get? k' := find?_eraseP k k' t.entries h

theorem key_of_mem_insertInto {k : κ} {a : α} {es : List (κ × α)} {e : κ × α} (h : e ∈ insertInto k a es) :
    e.1 = k ∨ ∃ e' ∈ es, e'.1 = e.1 := by
  induction es with
  | nil => simp_all [insertInto]
  | cons x xs ih =>
    simp only [insertInto] at h
    split at h
    · rcases List.mem_cons.1 h with rfl | h
      · exact .inr ⟨x, List.mem_cons_self, rfl⟩
      · exact .inr ⟨e, List.mem_cons_of_mem _ h, rfl⟩
    · rcases List.mem_cons.1 h with rfl | h
      · exact .inr ⟨e, List.mem_cons_self, rfl⟩
      · rcases ih h with h | ⟨e', he', h⟩
        · exact .inl h
        · exact .inr ⟨e', List.mem_cons_of_mem _ he', h⟩

theorem Distinct.insert [PartialEquivBEq κ] {t : Table κ α} (h : t.Distinct) (k : κ) (a : α) : (t.insert k a).Distinct := by
  obtain ⟨es⟩ := t
  simp only [Distinct, Table.insert] at *
  induction es with
  | nil => simp [insertInto]
  | cons e es ih =>
    rw [List.pairwise_cons] at h
    simp only [insertInto]
    split
    · exact List.pairwise_cons.2 h
    · rename_i hek
      refine List.pairwise_cons.2 ⟨fun e' he' => ?_, ih h.2⟩
      rcases key_of_mem_insertInto he' with hk | ⟨e'', he'', hk⟩
      · rw [hk]; simpa using hek
      · rw [← hk]; exact h.1 e'' he''

theorem Distinct.erase {t : Table κ α} (h : t.Distinct) (k : κ) : (t.erase k).Distinct :=
  List.Pairwise.sublist List.eraseP_sublist h

end Table
end EventMatching
