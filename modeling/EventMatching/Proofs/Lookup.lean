/-
The keys of lookups.

The key of an area is its expression and the key of its region, which contains no `@`. So two areas have one key exactly
if their expressions are one text and their regions are equal (`area_key_iff`). The expression in turn joins four texts
by commas. It tells them if they contain no comma (`Area.expression_iff`), and otherwise need not. Lookups whose
expressions are `Separable` have one key exactly if they agree in kind, in every expression and in their regions
(`key_iff`).
-/
import EventMatching.Lookup
import EventMatching.Proofs.Region

namespace EventMatching

/-- texts joined at a character are told apart by its last place -/
theorem append_cons_inj_right {α : Type} {a : α} {xs xs' ys ys' : List α} (hy : a ∉ ys) (hy' : a ∉ ys')
    (h : xs ++ a :: ys = xs' ++ a :: ys') : xs = xs' ∧ ys = ys' := by
  rcases List.append_eq_append_iff.1 h with ⟨zs, rfl, hzs⟩ | ⟨zs, rfl, hzs⟩
  · cases zs with
    | nil => exact ⟨(List.append_nil _).symm, (List.cons.inj hzs).2⟩
    | cons z zs =>
      obtain ⟨rfl, rfl⟩ := List.cons.inj hzs
      exact absurd (List.mem_append_right _ List.mem_cons_self) hy
  · cases zs with
    | nil => exact ⟨List.append_nil _, (List.cons.inj hzs).2.symm⟩
    | cons z zs =>
      obtain ⟨rfl, rfl⟩ := List.cons.inj hzs
      exact absurd (List.mem_append_right _ List.mem_cons_self) hy'

namespace Area

/-- the expressions of the four fields -/
def expressions (a : Area) : List String := a.fields.map Field.expression

/-- no comma in the expressions, so that they can be told from the expression of the area -/
def CommaFree (a : Area) : Prop := ∀ e ∈ a.expressions, ',' ∉ e.toList

instance (a : Area) : Decidable a.CommaFree := inferInstanceAs (Decidable (∀ e ∈ a.expressions, ',' ∉ e.toList))

theorem expression_iff {a b : Area} (ha : a.CommaFree) (hb : b.CommaFree) :
    a.expression = b.expression ↔ a.expressions = b.expressions := by
  constructor
  · intro h
    have hjoined : ",".intercalate a.expressions = ",".intercalate b.expressions := by
      rw [expression, expression, String.append_left_inj, String.append_right_inj] at h
      exact h
    exact intercalate_inj (c := ',') rfl ha hb (List.cons_ne_nil _ _) (List.cons_ne_nil _ _) hjoined
  · intro h
    rw [expression, expression]
    exact congrArg (fun es => "rectangle(" ++ ",".intercalate es ++ ")") h

end Area

namespace Lookup

/-- the region of an area is made of numbers -/
def Numeric : Lookup → Prop
  | field _ => True
  | area a => a.region.Numeric

/-- the lookups are of one kind, with the same expression in each place, and in equal regions if they are areas -/
def Agrees : Lookup → Lookup → Prop
  | field f, field g => f.expression = g.expression
  | area a, area b => a.expressions = b.expressions ∧ (a.region == b.region) = true
  | _, _ => False

/-- the expressions do not contain what separates the parts of keys -/
def Separable : Lookup → Prop
  | field f => '@' ∉ f.expression.toList
  | area a => a.CommaFree

instance : (l : Lookup) → Decidable l.Numeric
  | field _ => isTrue trivial
  | area a => inferInstanceAs (Decidable a.region.Numeric)

instance : (l l' : Lookup) → Decidable (l.Agrees l')
  | field f, field g => inferInstanceAs (Decidable (f.expression = g.expression))
  | area a, area b => inferInstanceAs (Decidable (a.expressions = b.expressions ∧ (a.region == b.region) = true))
  | field _, area _ => isFalse id
  | area _, field _ => isFalse id

instance : (l : Lookup) → Decidable l.Separable
  | field f => inferInstanceAs (Decidable ('@' ∉ f.expression.toList))
  | area a => inferInstanceAs (Decidable a.CommaFree)

theorem not_mem_region_key (g : Region) : '@' ∉ g.key.toList :=
  not_mem_intercalate (by decide) (Region.not_mem_keyFields rfl (by decide) (by decide) (by decide) g)

theorem toList_area_key (a : Area) : (area a).key.toList = a.expression.toList ++ '@' :: a.region.key.toList := by
  rw [key, String.toList_append, String.toList_append, List.append_assoc]
  rfl

/-- areas have one key exactly if their expressions are one text and their regions are equal -/
theorem area_key_iff {a b : Area} (ha : a.region.Numeric) (hb : b.region.Numeric) :
    (area a).key = (area b).key ↔ a.expression = b.expression ∧ (a.region == b.region) = true := by
  rw [← Region.keyFields_iff ha hb]
  constructor
  · intro h
    rw [← String.toList_inj, toList_area_key, toList_area_key] at h
    obtain ⟨hexpression, hregion⟩ := append_cons_inj_right (not_mem_region_key _) (not_mem_region_key _) h
    exact ⟨String.toList_inj.1 hexpression, Region.keyFields_of_key (String.toList_inj.1 hregion)⟩
  · rintro ⟨hexpression, hregion⟩
    rw [key, key, hexpression, Region.key, Region.key, hregion]

/-- a field shares no key with an area if its expression does not look like the key of one -/
theorem field_key_ne {f : Field} (hf : '@' ∉ f.expression.toList) (a : Area) : (field f).key ≠ (area a).key := by
  intro h
  rw [← String.toList_inj, toList_area_key] at h
  have hmem : '@' ∈ (field f).key.toList := by
    rw [h]
    exact List.mem_append_right _ List.mem_cons_self
  exact hf hmem

/-- **Keys tell separable lookups apart.** -/
theorem key_iff {l l' : Lookup} (hn : l.Numeric) (hn' : l'.Numeric) (hs : l.Separable) (hs' : l'.Separable) :
    l.key = l'.key ↔ l.Agrees l' := by
  match l, l' with
  | field f, field g => exact Iff.rfl
  | area a, area b => exact (area_key_iff hn hn').trans (and_congr_left' (Area.expression_iff hs hs'))
  | field f, area b => exact iff_of_false (field_key_ne hs b) id
  | area a, field g => exact iff_of_false (fun h => field_key_ne hs' a h.symm) id

end Lookup
end EventMatching
