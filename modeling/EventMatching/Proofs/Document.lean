/-
Documents and what is read back from them.

A decimal that is written can be read just if it is finite, and is then the same bit for bit (`asDouble_ofDouble`); one of
single precision is written as the double that it widens to, and rounding that gives its bits again
(`asSingle_ofDouble`). So a value, a rectangle, a box or a region that is written is read back as it was if all decimals
in it are finite, and refused if one is not: they make a `RoundTrip`. A field of a region that may be missing has its
default only if it is (`Region.settled_of_ofDocument`). The main result is `round_trip`.
-/
import EventMatching.Document.Codec
import EventMatching.Proofs.Numeric.Widening
import EventMatching.Proofs.Value
import Mathlib.Logic.Basic

namespace EventMatching

/-! ## What can be written -/

/-- no decimal in the value is infinite or no number -/
def Value.isFinite : Value → Bool
  | .single x => x.isFinite
  | .double x => x.isFinite
  | _ => true

def Rect.isFinite (r : Rect) : Bool := r.x.isFinite && r.y.isFinite && r.w.isFinite && r.h.isFinite

def Box.isFinite (b : Box) : Bool := b.minX.isFinite && b.minY.isFinite && b.maxX.isFinite && b.maxY.isFinite

def Region.isFinite (g : Region) : Bool := g.rect.isFinite && g.minNodeSize.isFinite

/-- what is written is read back as it was if all decimals in it are finite, and is then equal to itself; it is refused if
one is not -/
structure RoundTrip {α : Type} [BEq α] (write : α → Document) (read : Document → Option α) (isFinite : α → Bool) : Prop where
  back : ∀ x, read (write x) = if isFinite x then some x else none
  equal : ∀ x, isFinite x = true → (x == x) = true

/-! ## Numbers -/

namespace Document

theorem asDouble_ofDouble (x : Binary64) : (ofDouble x).asDouble = if x.isFinite then some x else none := by
  unfold ofDouble
  split <;> rfl

theorem asSingle_ofDouble (x : Binary32) : (ofDouble x.convert).asSingle = if x.isFinite then some x else none := by
  have hwidens := BinaryFormat.double_widens_single
  rw [ofDouble, Binary.isFinite_convert hwidens]
  split
  · rename_i hx
    rw [asSingle, Binary.convert_convert hwidens hx]
  · rfl

/-- a record goes on behind a decimal just if it is finite -/
theorem bind_asDouble {α : Type} (x : Binary64) (f : Binary64 → Option α) :
    ((ofDouble x).asDouble >>= f) = if x.isFinite then f x else none := by
  rw [asDouble_ofDouble]
  split <;> rfl

theorem asWord_toNat (n : UInt32) : (int n.toNat).asWord = some n := by
  have hn : n.toNat < 4294967296 := n.toNat_lt
  rw [asWord, if_pos (by omega), Int.toNat_natCast, UInt32.ofNat_toNat]

/-! ## Fields -/

/-- what the document has for a field: under its name, or at its place in a list -/
def field? (d : Document) (name : String) (i : Nat) : Option Document :=
  match d with
  | object fields => fields.lookup name
  | list items => items[i]?
  | _ => none

/-- what was read for a field is what the document has for it, or the default if it has nothing -/
def Settled {α : Type} (written : Option Document) (read : Document → Option α) (default a : α) : Prop :=
  (∀ d, written = some d → read d = some a) ∧ (written = none → a = default)

theorem settled_of_fieldOr {α : Type} {written : Option Document} {read : Document → Option α} {default a : α}
    (h : Region.fieldOr default read written = some a) : Settled written read default a := by
  cases written with
  | none =>
    obtain rfl := Option.some.inj h
    exact ⟨fun d hd => (nomatch hd), fun _ => rfl⟩
  | some d =>
    refine ⟨fun d' hd => ?_, fun hnone => nomatch hnone⟩
    obtain rfl := Option.some.inj hd
    exact h

/-- a record has the fields of the document at their places -/
theorem getElem?_record {d : Document} {names : List String} {fields : List (Option Document)}
    (h : d.record names = some fields) {i : Nat} (hi : i < names.length) : fields[i]? = some (d.field? names[i] i) := by
  cases d with
  | object written =>
    obtain rfl := Option.some.inj h
    rw [List.getElem?_map, List.getElem?_eq_getElem hi]
    rfl
  | list items =>
    rw [record] at h
    split at h
    · obtain rfl := Option.some.inj h
      rcases Nat.lt_or_ge i items.length with hlt | hge
      · rw [List.getElem?_append_left (by rwa [List.length_map]), List.getElem?_map, field?, List.getElem?_eq_getElem hlt]
        rfl
      · rw [List.getElem?_append_right (by rwa [List.length_map]), List.length_map,
          List.getElem?_replicate_of_lt (by omega), field?, List.getElem?_eq_none hge]
    · cases h
  | null | bool | int | real | text => cases h

end Document

/-! ## Values -/

namespace Value

/-- an integer is read back under the name of its type -/
theorem ofTagged_tag (t : IntType) (n : Int) (h : t.Fits n) : ofTagged t.tag (.int n) = some (int t n h) := by
  have hread : integerOf t (.int n) = some (int t n h) := dif_pos h
  rw [← hread]
  cases t <;> rfl

theorem roundTrip : RoundTrip toDocument ofDocument isFinite where
  back v := by
    cases v with
    | null | bool | text => rfl
    | int t n h => exact ofTagged_tag t n h
    | single x =>
      show (Document.ofDouble x.convert).asSingle.map single = _
      rw [Document.asSingle_ofDouble, isFinite]
      split <;> rfl
    | double x =>
      show (Document.ofDouble x).asDouble.map double = _
      rw [Document.asDouble_ofDouble, isFinite]
      split <;> rfl
  equal v _ := BEq.rfl

end Value

/-! ## Shapes -/

theorem Rect.roundTrip : RoundTrip toDocument ofDocument isFinite where
  back r := by
    have hread : ofDocument r.toDocument = do
        return ⟨← (Document.ofDouble r.x).asDouble, ← (Document.ofDouble r.y).asDouble,
          ← (Document.ofDouble r.w).asDouble, ← (Document.ofDouble r.h).asDouble⟩ := rfl
    rw [hread]
    simp only [Document.bind_asDouble, isFinite, Bool.and_eq_true, ite_and]
    rfl
  equal r h := by
    simp only [isFinite, Bool.and_eq_true] at h
    obtain ⟨⟨⟨hx, hy⟩, hw⟩, hh⟩ := h
    rw [beq_iff]
    exact ⟨Binary.beq_self_of_isFinite hx, Binary.beq_self_of_isFinite hy, Binary.beq_self_of_isFinite hw,
      Binary.beq_self_of_isFinite hh⟩

theorem Box.roundTrip : RoundTrip toDocument ofDocument isFinite where
  back b := by
    have hread : ofDocument b.toDocument = do
        return ⟨← (Document.ofDouble b.minX).asDouble, ← (Document.ofDouble b.minY).asDouble,
          ← (Document.ofDouble b.maxX).asDouble, ← (Document.ofDouble b.maxY).asDouble⟩ := rfl
    rw [hread]
    simp only [Document.bind_asDouble, isFinite, Bool.and_eq_true, ite_and]
    rfl
  equal b h := by
    simp only [isFinite, Bool.and_eq_true] at h
    obtain ⟨⟨⟨hminX, hminY⟩, hmaxX⟩, hmaxY⟩ := h
    show (_ && _ && _ && _) = true
    rw [Binary.beq_self_of_isFinite hminX, Binary.beq_self_of_isFinite hminY, Binary.beq_self_of_isFinite hmaxX,
      Binary.beq_self_of_isFinite hmaxY]
    rfl

namespace Region

theorem ofDocument_of_record {d x y width height : Document} {maxHeight minNodeSize prune : Option Document}
    (h : d.record ["x", "y", "width", "height", "max_tree_height", "min_node_size", "prune_empty_nodes"] =
      some [some x, some y, some width, some height, maxHeight, minNodeSize, prune]) :
    ofDocument d = do
      return ⟨← x.asDouble, ← y.asDouble, ← width.asDouble, ← height.asDouble, ← fieldOr 20 Document.asWord maxHeight,
        ← fieldOr .zero Document.asDouble minNodeSize, ← fieldOr false Document.asBool prune⟩ := by
  rw [ofDocument, h]

theorem fieldOr_some {α : Type} (default : α) (read : Document → Option α) (d : Document) :
    fieldOr default read (some d) = read d := rfl

theorem roundTrip : RoundTrip toDocument ofDocument isFinite where
  back g := by
    have hrecord : g.toDocument.record ["x", "y", "width", "height", "max_tree_height", "min_node_size",
        "prune_empty_nodes"] = some [some (.ofDouble g.x), some (.ofDouble g.y), some (.ofDouble g.width),
        some (.ofDouble g.height), some (.int g.maxHeight.toNat), some (.ofDouble g.minNodeSize),
        some (.bool g.prune)] := rfl
    rw [ofDocument_of_record hrecord, fieldOr_some, fieldOr_some, fieldOr_some, Document.asWord_toNat]
    simp only [Document.bind_asDouble, isFinite, Rect.isFinite, rect, Bool.and_eq_true, ite_and]
    rfl
  equal g h := by
    simp only [isFinite, Rect.isFinite, rect, Bool.and_eq_true] at h
    obtain ⟨⟨⟨⟨hx, hy⟩, hwidth⟩, hheight⟩, hsize⟩ := h
    show (_ && _ && _ && _ && _ && _ && _) = true
    rw [Binary.beq_self_of_isFinite hx, Binary.beq_self_of_isFinite hy, Binary.beq_self_of_isFinite hwidth,
      Binary.beq_self_of_isFinite hheight, Binary.beq_self_of_isFinite hsize, beq_self_eq_true, beq_self_eq_true]
    rfl

/-- **A default never takes the place of what is written.** -/
theorem settled_of_ofDocument {d : Document} {g : Region} (h : ofDocument d = some g) :
    Document.Settled (d.field? "max_tree_height" 4) Document.asWord 20 g.maxHeight ∧
      Document.Settled (d.field? "min_node_size" 5) Document.asDouble .zero g.minNodeSize ∧
      Document.Settled (d.field? "prune_empty_nodes" 6) Document.asBool false g.prune := by
  unfold ofDocument at h
  split at h
  · rename_i x y width height maxHeight minNodeSize prune hrecord
    have hheight : maxHeight = d.field? "max_tree_height" 4 :=
      Option.some.inj (Document.getElem?_record hrecord (i := 4) (by decide))
    have hsize : minNodeSize = d.field? "min_node_size" 5 :=
      Option.some.inj (Document.getElem?_record hrecord (i := 5) (by decide))
    have hprune : prune = d.field? "prune_empty_nodes" 6 :=
      Option.some.inj (Document.getElem?_record hrecord (i := 6) (by decide))
    simp only [Option.bind_eq_bind, Option.bind_eq_some_iff, Option.pure_def, Option.some.injEq] at h
    obtain ⟨_, -, _, -, _, -, _, -, n, hn, s, hs, p, hp, rfl⟩ := h
    rw [← hheight, ← hsize, ← hprune]
    exact ⟨Document.settled_of_fieldOr hn, Document.settled_of_fieldOr hs, Document.settled_of_fieldOr hp⟩
  · cases h

end Region

/-! ## Main result -/

/-- **Writing and reading back.** A value, a rectangle, a box or a region without infinite decimals and without NaN is read
back from its document bit for bit, and equals itself; one with such a decimal is refused. The fields of a region that may
be missing are read from the document, and have their defaults only where it does not have them. -/
theorem round_trip :
    RoundTrip Value.toDocument Value.ofDocument Value.isFinite ∧
    RoundTrip Rect.toDocument Rect.ofDocument Rect.isFinite ∧
    RoundTrip Box.toDocument Box.ofDocument Box.isFinite ∧
    RoundTrip Region.toDocument Region.ofDocument Region.isFinite ∧
    ∀ d g, Region.ofDocument d = some g →
      Document.Settled (d.field? "max_tree_height" 4) Document.asWord 20 g.maxHeight ∧
      Document.Settled (d.field? "min_node_size" 5) Document.asDouble .zero g.minNodeSize ∧
      Document.Settled (d.field? "prune_empty_nodes" 6) Document.asBool false g.prune :=
  ⟨Value.roundTrip, Rect.roundTrip, Box.roundTrip, Region.roundTrip, fun _ _ => Region.settled_of_ofDocument⟩

/-- the least negative number of single precision and a rectangle with an infinite side, there and back, and a region
with one of its fields that may be missing -/
theorem round_trip_on_extremes :
    let least : Binary32 := .ofCode true 1 (by decide)
    let unbounded : Rect := ⟨.zero, .zero, .infinity false, .zero⟩
    let written : List (String × Document) :=
      [("x", .int 0), ("y", .int 0), ("width", .int 1), ("height", .int 1), ("max_tree_height", .int 4)]
    Value.ofDocument (Value.single least).toDocument = some (.single least) ∧
      Rect.ofDocument unbounded.toDocument = none ∧
      ∃ g, Region.ofDocument (.object written) = some g ∧ g.maxHeight = 4 ∧ g.prune = false := by
  intro least unbounded written
  obtain ⟨hvalue, hrect, -, -, hsettled⟩ := round_trip
  refine ⟨hvalue.back _, hrect.back unbounded, ?_⟩
  obtain ⟨g, hg⟩ : ∃ g, Region.ofDocument (.object written) = some g := ⟨_, rfl⟩
  obtain ⟨hheight, -, hprune⟩ := hsettled _ g hg
  exact ⟨g, hg, (Option.some.inj (hheight.1 (.int 4) rfl)).symm, hprune.2 rfl⟩

end EventMatching
