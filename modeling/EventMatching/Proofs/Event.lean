/-
Equal events read alike.

Equal events have equal values under every name, which may differ in the width of a number, in the sign of a zero or in
the bits of a NaN. None of this shows: equal values coerce to alike numbers or fail with one error (`coerce_same`), alike
rectangles have alike boxes with alike extents, and boxes are only compared. So a lookup that reads properties has the
same faults on equal events, and they satisfy the same constants (`fault?_of_equal`, `satisfies_of_equal`).
-/
import EventMatching.Proofs.Index.Visit

namespace EventMatching

/-- the two readings give related results, or fail with one error -/
inductive SameReading {α : Type} (r : α → α → Prop) : Except Error α → Except Error α → Prop
  | ok {a b : α} (h : r a b) : SameReading r (.ok a) (.ok b)
  | error (e : Error) : SameReading r (.error e) (.error e)

namespace SameReading

variable {α β : Type} {r : α → α → Prop} {r' : β → β → Prop} {x y : Except Error α}

theorem bind {f g : α → Except Error β} (h : SameReading r x y) (hf : ∀ a b, r a b → SameReading r' (f a) (g b)) :
    SameReading r' (x >>= f) (y >>= g) := by
  cases h with
  | ok h => exact hf _ _ h
  | error e => exact .error e

theorem fault_eq (h : SameReading r x y) : faultOf x = faultOf y := by
  cases h <;> rfl

end SameReading

/-! ## Numbers, rectangles and boxes -/

namespace Binary

variable {F : BinaryFormat} {x x' y y' : Binary F}

theorem Alike.neg (h : Alike x y) : Alike (-x) (-y) := by
  rcases alike_iff.1 h with ⟨hx, hy⟩ | h
  · exact alike_of_isNaN hx hy
  · rcases eq_or_zero_of_rank_eq (beq_iff.1 h).2.2 with rfl | ⟨hx, hy⟩
    · rfl
    · exact alike_of_zero hx hy

theorem Alike.sub (hx : Alike x x') (hy : Alike y y') : Alike (x - y) (x' - y') := hx.add hy.neg

end Binary

/-- the fields of the two rectangles are alike -/
structure Rect.Alike (r s : Rect) : Prop where
  x : r.x.Alike s.x
  y : r.y.Alike s.y
  w : r.w.Alike s.w
  h : r.h.Alike s.h

namespace Box

theorem alike_of_rect {r s : Rect} (h : r.Alike s) : (ofRect r).Alike (ofRect s) :=
  ⟨h.x, h.y, h.x.add h.w, h.y.add h.h⟩

theorem Alike.width {a b : Box} (h : a.Alike b) : a.width.Alike b.width := h.maxX.sub h.minX

theorem Alike.height {a b : Box} (h : a.Alike b) : a.height.Alike b.height := h.maxY.sub h.minY

theorem intersects_comm (a b : Box) : a.intersects b = b.intersects a := by
  unfold intersects
  rw [Bool.and_comm (a.minX.le b.maxX), Bool.and_assoc, Bool.and_comm (a.minY.le b.maxY), ← Bool.and_assoc]

end Box

/-! ## Values -/

namespace Value

variable {v w : Value}

/-- equal values stand for alike numbers, or they are one value that is no number -/
theorem asDouble_of_beq (h : v == w) :
    (∃ x y, v.asDouble = some x ∧ w.asDouble = some y ∧ x.Alike y) ∨ (v = w ∧ v.asDouble = none) := by
  have h := beq_iff.1 h
  cases v with
  | null => cases w <;> cases h; exact .inr ⟨rfl, rfl⟩
  | bool b => cases w <;> cases h; exact .inr ⟨rfl, rfl⟩
  | text s => cases w <;> cases h; exact .inr ⟨rfl, rfl⟩
  | int t n fits => cases w <;> cases h; exact .inl ⟨_, _, rfl, rfl, .refl _⟩
  | single x | double x =>
    cases w with
    | single y | double y => exact .inl ⟨_, _, rfl, rfl, Content.decimal.inj h⟩
    | _ => cases h

theorem coerce_same (h : v == w) (context : String) :
    SameReading Binary.Alike (v.coerce context) (w.coerce context) := by
  unfold coerce
  rcases asDouble_of_beq h with ⟨x, y, hx, hy, hxy⟩ | ⟨rfl, hnone⟩
  · rw [hx, hy]
    exact .ok hxy
  · rw [hnone]
    exact .error _

theorem isNull_of_beq (h : v == w) : v.isNull = w.isNull := by
  have hcontent (v : Value) : v.isNull = decide (v.content = .null) := by cases v <;> rfl
  rw [hcontent, hcontent, beq_iff.1 h]

end Value

/-! ## Events -/

variable {e e' : Event}

namespace Event

theorem lookup_of_beq {ps qs : List (String × Value)} (h : ps == qs) (name : String) :
    Value.ofOption (ps.lookup name) == Value.ofOption (qs.lookup name) := by
  induction ps generalizing qs with
  | nil =>
    cases qs with
    | nil => exact BEq.rfl
    | cons q qs => cases h
  | cons p ps ih =>
    cases qs with
    | nil => cases h
    | cons q qs =>
      obtain ⟨n, v⟩ := p
      obtain ⟨n', w⟩ := q
      have h : ((n == n' && v == w) && ps == qs) = true := h
      rw [Bool.and_eq_true, Bool.and_eq_true] at h
      obtain ⟨⟨hn, hv⟩, hrest⟩ := h
      obtain rfl := eq_of_beq hn
      rw [List.lookup_cons, List.lookup_cons]
      cases name == n with
      | true => exact hv
      | false => exact ih hrest

/-- equal events have equal values under every name -/
theorem get?_of_beq (h : e == e') (name : String) : Value.ofOption (e.get? name) == Value.ofOption (e'.get? name) := by
  have h : (e.type == e'.type && e.properties == e'.properties) = true := h
  exact lookup_of_beq (Bool.and_eq_true_iff.1 h).2 name

end Event

theorem Field.property_number (h : e == e') (name : String) :
    SameReading Binary.Alike ((property name).number e) ((property name).number e') :=
  Value.coerce_same (Event.get?_of_beq h name) name

theorem Area.properties_query (h : e == e') (x y w ht : String) (g : Region) :
    SameReading Rect.Alike ((properties x y w ht g).query e) ((properties x y w ht g).query e') := by
  refine (Field.property_number h x).bind fun _ _ hx => ?_
  refine (Field.property_number h y).bind fun _ _ hy => ?_
  refine (Field.property_number h w).bind fun _ _ hw => ?_
  refine (Field.property_number h ht).bind fun _ _ hh => ?_
  exact .ok ⟨hx, hy, hw, hh⟩

/-! ## Lookups -/

namespace Lookup

/-- what the lookup reads are properties of the event -/
inductive ReadsProperties : Lookup → Prop
  | property (name : String) : ReadsProperties (.field (.property name))
  | properties (x y w h : String) (g : Region) : ReadsProperties (.area (.properties x y w h g))

theorem ReadsProperties.fault?_of_equal {l : Lookup} (hl : l.ReadsProperties) (h : e == e') :
    l.fault? e = l.fault? e' := by
  cases hl with
  | property name => rfl
  | properties x y w ht g =>
    rw [Area.query_fault, Area.query_fault]
    exact (Area.properties_query h x y w ht g).fault_eq

/-- **Equal events satisfy the same constants.** -/
theorem ReadsProperties.satisfies_of_equal {l : Lookup} (hl : l.ReadsProperties) (h : e == e') (c : Constant) :
    l.satisfies e c = l.satisfies e' c := by
  cases hl with
  | property name =>
    cases c with
    | rect r => rfl
    | value w =>
      have hv := Event.get?_of_beq h name
      simp only [satisfies, Field.property]
      rw [Value.isNull_of_beq hv, BEq.congr_left hv]
  | properties x y w ht g =>
    cases c with
    | value v => rfl
    | rect r =>
      have hquery := Area.properties_query h x y w ht g
      simp only [satisfies]
      generalize (Area.properties x y w ht g).query e = q at hquery ⊢
      generalize (Area.properties x y w ht g).query e' = q' at hquery ⊢
      cases hquery with
      | error err => rfl
      | ok hq =>
        have hbox := Box.alike_of_rect hq
        simp only [← Box.intersects_iff, Box.intersects_comm (.ofRect r), Box.intersects_congr hbox,
          Binary.le_congr (.refl _) hbox.width, Binary.le_congr (.refl _) hbox.height]

end Lookup
end EventMatching
