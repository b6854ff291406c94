/-
The keys of regions.

Texts joined by a separator that none of them contains are told from the joined text (`intercalate_inj`). The texts of
numbers and truth values contain no comma, so the key of a region tells its seven fields (`keyFields_of_key`), and these
tell the region up to the signs of zeros (`keyFields_iff`). So keys are as fine as equality of regions, for all regions
that hold no NaN (`key_of_equality`), and a valid region holds none (`numeric_of_validate`).
-/
import EventMatching.Validation
import EventMatching.Proofs.Numeric.Text

namespace EventMatching

/-! ## Joined texts -/

/-- a joined text tells its parts if they do not contain the separator -/
theorem intercalate_inj {sep : String} {c : Char} (hsep : sep.toList = [c]) {xs ys : List String}
    (hx : ∀ s ∈ xs, c ∉ s.toList) (hy : ∀ s ∈ ys, c ∉ s.toList) (hxne : xs ≠ []) (hyne : ys ≠ [])
    (h : sep.intercalate xs = sep.intercalate ys) : xs = ys := by
  have hsplit : ∀ {zs : List String}, (∀ s ∈ zs, c ∉ s.toList) → zs ≠ [] →
      (sep.intercalate zs).toList.splitOn c = zs.map String.toList := by
    intro zs hz hne
    rw [String.toList_intercalate, hsep]
    refine List.splitOn_intercalate c ?_ ?_
    · intro l hl
      obtain ⟨s, hs, rfl⟩ := List.mem_map.1 hl
      exact hz s hs
    · simpa using hne
  have hmap : xs.map String.toList = ys.map String.toList := by rw [← hsplit hx hxne, h, hsplit hy hyne]
  exact List.map_inj_right (fun _ _ => String.toList_inj.1) |>.1 hmap

/-- a character that is in no part and not in the separator is not in the joined text -/
theorem not_mem_intercalate {sep : String} {c : Char} (hsep : c ∉ sep.toList) {xs : List String}
    (hx : ∀ s ∈ xs, c ∉ s.toList) : c ∉ (sep.intercalate xs).toList := by
  induction xs with
  | nil => simp
  | cons s xs ih =>
    obtain ⟨hs, hrest⟩ := List.forall_mem_cons.1 hx
    cases xs with
    | nil => rwa [String.intercalate_singleton]
    | cons t xs =>
      rw [String.intercalate_cons_cons, String.toList_append, String.toList_append, List.mem_append, List.mem_append]
      rintro ((h | h) | h)
      · exact hs h
      · exact hsep h
      · exact ih hrest h

namespace Region

/-- none of the numbers is NaN, as in every region that is valid -/
structure Numeric (g : Region) : Prop where
  x : g.x.isNaN = false
  y : g.y.isNaN = false
  width : g.width.isNaN = false
  height : g.height.isNaN = false
  minNodeSize : g.minNodeSize.isNaN = false

instance (g : Region) : Decidable g.Numeric :=
  decidable_of_iff (g.x.isNaN = false ∧ g.y.isNaN = false ∧ g.width.isNaN = false ∧ g.height.isNaN = false ∧
      g.minNodeSize.isNaN = false)
    ⟨fun ⟨h1, h2, h3, h4, h5⟩ => ⟨h1, h2, h3, h4, h5⟩, fun ⟨h1, h2, h3, h4, h5⟩ => ⟨h1, h2, h3, h4, h5⟩⟩

theorem beq_iff {g g' : Region} : g == g' ↔
    g.x == g'.x ∧ g.y == g'.y ∧ g.width == g'.width ∧ g.height == g'.height ∧ g.maxHeight = g'.maxHeight ∧
      g.minNodeSize == g'.minNodeSize ∧ g.prune = g'.prune := by
  show (_ && _ && _ && _ && _ && _ && _) = true ↔ _
  simp [and_assoc]

theorem flag_inj {a b : Bool} : flag a = flag b ↔ a = b := by
  cases a <;> cases b <;> decide

theorem toList_toString (n : UInt32) : (toString n).toList = Nat.toDigits 10 n.toNat := by
  rw [show toString n = toString n.toNat from rfl, Nat.toString_eq_ofList_toDigits, String.toList_ofList]

theorem toString_inj {n m : UInt32} : toString n = toString m ↔ n = m := by
  rw [← String.toList_inj, toList_toString, toList_toString, ← UInt32.toNat_inj]
  refine ⟨fun h => ?_, congrArg _⟩
  rw [← Nat.ofDigitChars_ten_toDigits (n := n.toNat), h, Nat.ofDigitChars_ten_toDigits]

/-- a character that is no part of numbers and truth values is in no field of a key -/
theorem not_mem_keyFields {c : Char} (hd : c.isDigit = false) (hc : c ∉ Binary.marks) (ht : c ∉ "true".toList)
    (hf : c ∉ "false".toList) (g : Region) : ∀ s ∈ g.keyFields, c ∉ s.toList := by
  have hnumber : ∀ x : Binary64, c ∉ x.unsignedZero.text.toList := fun x => Binary.not_mem_text hd hc _
  have hcount : c ∉ (toString g.maxHeight).toList := by
    rw [toList_toString]
    intro h
    rw [Decimal.isDigit_of_mem_toDigits h] at hd
    cases hd
  have hflag : c ∉ (flag g.prune).toList := by
    unfold flag
    split
    · exact ht
    · exact hf
  simp only [keyFields, List.forall_mem_cons]
  exact ⟨hnumber _, hnumber _, hnumber _, hnumber _, hcount, hnumber _, hflag, fun s hs => nomatch hs⟩

theorem keyFields_of_key {g g' : Region} (h : g.key = g'.key) : g.keyFields = g'.keyFields := by
  have hcomma := not_mem_keyFields (c := ',') rfl (by decide) (by decide) (by decide)
  exact intercalate_inj (c := ',') rfl (hcomma g) (hcomma g') (List.cons_ne_nil _ _) (List.cons_ne_nil _ _) h

/-- the fields of a key tell regions apart as `==` does -/
theorem keyFields_iff {g g' : Region} (hg : g.Numeric) (hg' : g'.Numeric) :
    g.keyFields = g'.keyFields ↔ (g == g') = true := by
  simp only [keyFields, List.cons.injEq, and_true, beq_iff, Binary.text_unsignedZero_iff hg.x hg'.x,
    Binary.text_unsignedZero_iff hg.y hg'.y, Binary.text_unsignedZero_iff hg.width hg'.width,
    Binary.text_unsignedZero_iff hg.height hg'.height, Binary.text_unsignedZero_iff hg.minNodeSize hg'.minNodeSize,
    toString_inj, flag_inj]

/-- the checks of a region let no NaN through -/
theorem numeric_of_validate {g : Region} (h : g.validate.isOk = true) : g.Numeric := by
  have hnumber : ∀ {x : Binary64}, x.isFinite = true → x.isNaN = false := fun hx => (Binary.isFinite_iff.1 hx).1
  unfold validate at h
  split at h
  · cases h
  · rename_i hextent
    split at h
    · cases h
    · split at h
      · cases h
      · rename_i hsize
        simp only [Bool.or_eq_true, Bool.not_eq_true', Bool.and_eq_false_iff, not_or, Bool.not_eq_false]
          at hextent hsize
        obtain ⟨⟨⟨⟨⟨hx, hy⟩, hw⟩, hh⟩, -⟩, -⟩ := hextent
        exact ⟨hnumber hx, hnumber hy, hnumber hw, hnumber hh, hnumber hsize.1⟩

/-! ## Main result -/

/-- **Region keys are exact.** Two regions that hold no NaN have one key just if they are equal, that is, if all seven
fields are, numbers being equal as numbers: the sign of a zero makes no other key, and any other difference in any field
does. Every valid region is such a region. -/
theorem key_of_equality {g g' : Region} (hg : g.Numeric) (hg' : g'.Numeric) :
    (g.key = g'.key ↔ g == g') ∧
    (g.key = g'.key ↔ g.x == g'.x ∧ g.y == g'.y ∧ g.width == g'.width ∧ g.height == g'.height ∧
      g.maxHeight = g'.maxHeight ∧ g.minNodeSize == g'.minNodeSize ∧ g.prune = g'.prune) ∧
    ∀ valid : Region, valid.validate.isOk = true → valid.Numeric := by
  have hkey : g.key = g'.key ↔ g == g' := by
    rw [← keyFields_iff hg hg']
    constructor
    · exact keyFields_of_key
    · intro hfields
      rw [key, key, hfields]
  refine ⟨hkey, ?_, fun _ => numeric_of_validate⟩
  rw [hkey, beq_iff]

/-- the square of size 1 from a corner with equal coordinates, with a number of levels -/
def unitSquare (corner : Binary64) (levels : UInt32) : Region :=
  { x := corner, y := corner, width := .ofInt 1, height := .ofInt 1, maxHeight := levels }

/-- the other zero leaves the key as it is although it shows in the text of the region, and another height does not -/
theorem key_of_unitSquare :
    (unitSquare (-.zero) 20).Numeric ∧ (unitSquare .zero 20).Numeric ∧ (unitSquare (-.zero) 4).Numeric ∧
      (unitSquare (-.zero) 20).display ≠ (unitSquare .zero 20).display ∧
      (unitSquare (-.zero) 20).key = (unitSquare .zero 20).key ∧
      (unitSquare (-.zero) 20).key ≠ (unitSquare (-.zero) 4).key := by
  have hnegative : (unitSquare (-.zero) 20).Numeric := numeric_of_validate (by decide +kernel)
  have hpositive : (unitSquare .zero 20).Numeric := numeric_of_validate (by decide +kernel)
  have hlow : (unitSquare (-.zero) 4).Numeric := numeric_of_validate (by decide +kernel)
  refine ⟨hnegative, hpositive, hlow, by decide +kernel, ?_, ?_⟩
  · exact (key_of_equality hnegative hpositive).1.2 (by decide +kernel)
  · intro h
    have hlevels := ((key_of_equality hnegative hlow).2.1.1 h).2.2.2.2.1
    revert hlevels
    decide +kernel

/-- a NaN makes a region unequal to itself, which no key can show -/
example : let g : Region := { unitSquare .zero 20 with x := .nan }
    ¬g.Numeric ∧ (g == g) = false := by decide +kernel

end Region
end EventMatching
