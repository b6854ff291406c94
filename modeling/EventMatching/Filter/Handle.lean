/-
Handles of filters, and ordered sets of them.

A handle names one filter of one statement. Handles are ordered by statement first, and a `HandleSet` keeps its handles
strictly ascending.
-/

namespace EventMatching

/-- names the filter `filter` of the statement `statement` -/
structure Handle where
  statement : UInt64
  filter : UInt32
deriving DecidableEq

namespace Handle

/-- ordered by statement, then by filter -/
instance : LT Handle := ⟨fun a b => a.statement < b.statement ∨ (a.statement = b.statement ∧ a.filter < b.filter)⟩

instance (a b : Handle) : Decidable (a < b) :=
  inferInstanceAs (Decidable (a.statement < b.statement ∨ (a.statement = b.statement ∧ a.filter < b.filter)))

def display (h : Handle) : String := "FilterHandle(" ++ toString h.statement ++ ":" ++ toString h.filter ++ ")"

theorem lt_iff {a b : Handle} :
    a < b ↔ a.statement < b.statement ∨ (a.statement = b.statement ∧ a.filter < b.filter) := Iff.rfl

theorem lt_trans {a b c : Handle} (hab : a < b) (hbc : b < c) : a < c := by
  simp only [lt_iff, UInt64.lt_iff_toNat_lt, UInt32.lt_iff_toNat_lt, ← UInt64.toNat_inj] at *
  omega

theorem lt_of_not_lt {a b : Handle} (h : ¬a < b) (hne : a ≠ b) : b < a := by
  have hne : ¬(a.statement = b.statement ∧ a.filter = b.filter) := by
    intro e; apply hne; cases a; cases b; simp_all
  simp only [lt_iff, UInt64.lt_iff_toNat_lt, UInt32.lt_iff_toNat_lt, ← UInt64.toNat_inj, ← UInt32.toNat_inj] at *
  omega

/-- puts a handle at its place in an ascending list, unless the list holds it -/
def insertInto (h : Handle) : List Handle → List Handle
  | [] => [h]
  | x :: xs => if h < x then h :: x :: xs else if h = x then x :: xs else x :: insertInto h xs

theorem mem_insertInto {h k : Handle} {xs : List Handle} : k ∈ insertInto h xs ↔ k = h ∨ k ∈ xs := by
  induction xs with
  | nil => simp [insertInto]
  | cons x xs ih =>
    simp only [insertInto]
    split
    · simp
    · split
      · subst_vars; simp
      · simp only [List.mem_cons, ih]; exact or_left_comm

theorem pairwise_insertInto {h : Handle} {xs : List Handle} (hxs : xs.Pairwise (· < ·)) :
    (insertInto h xs).Pairwise (· < ·) := by
  induction xs with
  | nil => simp [insertInto]
  | cons x xs ih =>
    rw [List.pairwise_cons] at hxs
    simp only [insertInto]
    split
    · rename_i hlt
      refine List.pairwise_cons.2 ⟨fun k hk => ?_, List.pairwise_cons.2 hxs⟩
      rcases List.mem_cons.1 hk with rfl | hk
      · exact hlt
      · exact lt_trans hlt (hxs.1 k hk)
    · split
      · exact List.pairwise_cons.2 hxs
      · rename_i hlt hne
        refine List.pairwise_cons.2 ⟨fun k hk => ?_, ih hxs.2⟩
        rcases mem_insertInto.1 hk with rfl | hk
        · exact lt_of_not_lt hlt hne
        · exact hxs.1 k hk

end Handle

/-- a set of handles, listed in strictly ascending order -/
structure HandleSet where
  toList : List Handle
  ascending : toList.Pairwise (· < ·)
deriving DecidableEq

namespace HandleSet

def empty : HandleSet := ⟨[], .nil⟩

def contains (s : HandleSet) (h : Handle) : Bool := s.toList.contains h

def insert (s : HandleSet) (h : Handle) : HandleSet := ⟨h.insertInto s.toList, Handle.pairwise_insertInto s.ascending⟩

def erase (s : HandleSet) (h : Handle) : HandleSet := ⟨s.toList.erase h, s.ascending.erase h⟩

def size (s : HandleSet) : Nat := s.toList.length

def isEmpty (s : HandleSet) : Bool := s.toList.isEmpty

theorem mem_insert {s : HandleSet} {h k : Handle} : k ∈ (s.insert h).toList ↔ k = h ∨ k ∈ s.toList :=
  Handle.mem_insertInto

theorem nodup (s : HandleSet) : s.toList.Nodup :=
  s.ascending.imp fun h e => by subst e; simp [Handle.lt_iff] at h

theorem mem_erase {s : HandleSet} {h k : Handle} : k ∈ (s.erase h).toList ↔ k ≠ h ∧ k ∈ s.toList :=
  s.nodup.mem_erase_iff

def singleton (h : Handle) : HandleSet := empty.insert h

def ofList (hs : List Handle) : HandleSet := hs.foldl insert empty

end HandleSet
end EventMatching
