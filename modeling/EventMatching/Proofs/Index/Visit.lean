/-
What a visit to an index does with an event.

`Lookup.fault?` is the first error among the readings of a lookup, and `Lookup.satisfies` says which constants an event
satisfies. A visit fails with that error before it runs anything; if there is none it runs the evaluators under the
satisfied constants, in the order in which the index holds them (`visit_eq`).
-/
import EventMatching.Proofs.Index.Contents
import EventMatching.Proofs.Quadtree.Collect

namespace EventMatching

/-- the error of a reading that failed -/
def faultOf {α : Type} : Except Error α → Option Error
  | .ok _ => none
  | .error e => some e

namespace Lookup

/-- how the readings of a lookup end on an event: that of a field, or those of the four numbers of a rectangle -/
def faults (event : Event) : Lookup → List (Option Error)
  | field f => [faultOf (f.extract event)]
  | area a => a.fields.map fun f => faultOf (f.number event)

/-- the first error that reading the event meets -/
def fault? (l : Lookup) (event : Event) : Option Error := (l.faults event).findSome? id

/-- the event satisfies the constant: it has an equal value other than null, or it asks about a box without negative
extent that meets the box of the constant -/
def satisfies (event : Event) : Lookup → Constant → Bool
  | field f, .value w =>
    match f.extract event with
    | .ok v => !v.isNull && v == w
    | .error _ => false
  | area a, .rect r =>
    match a.query event with
    | .ok q =>
      Binary.zero.le (Box.ofRect q).width && Binary.zero.le (Box.ofRect q).height &&
        decide ((Box.ofRect r).Meets (.ofRect q))
    | .error _ => false
  | _, _ => false

/-- equal constants are satisfied together -/
theorem satisfies_congr (l : Lookup) (event : Event) {c c' : Constant} (h : c == c') :
    l.satisfies event c = l.satisfies event c' := by
  match l, c, c' with
  | field f, .value w, .value w' =>
    have hw : w == w' := h
    simp only [satisfies]
    split
    · rename_i v hv
      have : (v == w) = (v == w') := by
        rw [Bool.eq_iff_iff]
        exact ⟨fun hvw => BEq.trans hvw hw, fun hvw => BEq.trans hvw (BEq.symm hw)⟩
      rw [this]
    · rfl
  | area a, .rect r, .rect r' =>
    have hr : r == r' := h
    simp only [satisfies]
    split
    · rename_i q hq
      simp only [← Box.intersects_iff, Box.intersects_congr (Box.ofRect_alike hr)]
    · rfl
  | field f, .rect r, .rect r' => rfl
  | area a, .value w, .value w' => rfl
  | _, .value _, .rect _ | _, .rect _, .value _ => cases h

end Lookup

/-- a field has the fault of its one reading -/
theorem Field.extract_fault (f : Field) (event : Event) : (Lookup.field f).fault? event = faultOf (f.extract event) := by
  simp only [Lookup.fault?, Lookup.faults]
  cases f.extract event <;> rfl

/-- the query of an area fails with the first fault among its four readings -/
theorem Area.query_fault (a : Area) (event : Event) : (Lookup.area a).fault? event = faultOf (a.query event) := by
  simp only [Lookup.fault?, Lookup.faults, Area.fields, List.map_cons, List.map_nil, Area.query]
  cases a.x.number event with
  | error e => rfl
  | ok x =>
    cases a.y.number event with
    | error e => rfl
    | ok y =>
      cases a.width.number event with
      | error e => rfl
      | ok w =>
        cases a.height.number event with
        | error e => rfl
        | ok h => rfl

namespace Index

variable {E σ : Type} {event : Event} {run : E → EStateM Error σ Unit}

/-- runs the evaluators under the satisfied constants -/
def visitSatisfied (ix : Index E) (event : Event) (run : E → EStateM Error σ Unit) : EStateM Error σ Unit :=
  (ix.contents.entries.filter fun e => ix.lookup.satisfies event e.1).forM fun e => run e.2

theorem visit_equality {f : Field} {t : Table Value E} (h : t.Distinct) {v : Value} (hv : f.extract event = .ok v) :
    (equality f t).visit event run = (equality f t).visitSatisfied event run := by
  have hp : (fun e : Constant × E => (Lookup.field f).satisfies event e.1) ∘ (fun e : Value × E => (.value e.1, e.2)) =
      fun e => !v.isNull && e.1 == v := by
    funext e
    simp only [Function.comp_apply, Lookup.satisfies, hv, BEq.comm]
  simp only [visit, visitSatisfied, hv, lookup, contents, Table.rename, List.filter_map, hp, List.forM_eq_forM,
    List.forM_map]
  by_cases hn : v.isNull = true
  · have hnil : t.entries.filter (fun _ => false) = [] := List.filter_eq_nil_iff.2 fun _ _ => Bool.false_ne_true
    simp only [hn, if_true, Bool.not_true, Bool.false_and, hnil]
    rfl
  · -- under the value there is the one evaluator that is found, or none
    have hkey : (t.entries.filter fun e => e.1 == v).map (·.2) = (t.get? v).toList := Table.filter_key h v
    have hrun : (forM (t.entries.filter fun e => e.1 == v) fun e => run e.2) = forM (t.get? v).toList run := by
      rw [← hkey, List.forM_map]
    rw [Bool.not_eq_true] at hn
    simp only [hn, Bool.not_false, Bool.true_and, Bool.false_eq_true, if_false, hrun]
    cases t.get? v <;> simp

theorem visit_area {a : Area} {t : Quadtree E} (h : t.Sound) {q : Rect} (hq : a.query event = .ok q) :
    (area a t).visit event run = (area a t).visitSatisfied event run := by
  have hp : (fun e : Constant × E => (Lookup.area a).satisfies event e.1) ∘ (fun e : Rect × E => (.rect e.1, e.2)) =
      fun e => Binary.zero.le (Box.ofRect q).width && Binary.zero.le (Box.ofRect q).height &&
        decide ((Box.ofRect e.1).Meets (.ofRect q)) := by
    funext e
    simp only [Function.comp_apply, Lookup.satisfies, hq]
  simp only [visit, visitSatisfied, hq, lookup, contents, Table.rename, List.filter_map, hp, List.forM_eq_forM,
    List.forM_map]
  rw [h.collect_eq, Quadtree.scan, List.forM_eq_forM]
  by_cases hb : (Binary.zero.le (Box.ofRect q).width && Binary.zero.le (Box.ofRect q).height) = true
  · simp only [hb, if_true, Bool.true_and]
    rfl
  · have hnil : t.root.contents.entries.filter (fun _ => false) = [] :=
      List.filter_eq_nil_iff.2 fun _ _ => Bool.false_ne_true
    rw [Bool.not_eq_true] at hb
    simp only [hb, Bool.false_eq_true, if_false, Bool.false_and, hnil]

/-- **A visit fails with the first fault, or else runs the evaluators of satisfied constants.** -/
theorem visit_eq {ix : Index E} (h : ix.Sound) (event : Event) (run : E → EStateM Error σ Unit) :
    ix.visit event run =
      match ix.lookup.fault? event with
      | some e => throw e
      | none => ix.visitSatisfied event run := by
  cases ix with
  | equality f t =>
    simp only [lookup, f.extract_fault]
    cases hv : f.extract event with
    | error e => simp only [visit, hv, faultOf]
    | ok v => exact visit_equality h hv
  | area a t =>
    simp only [lookup, a.query_fault]
    cases hq : a.query event with
    | error e => simp only [visit, hq, faultOf]
    | ok q => exact visit_area h hq

end Index
end EventMatching
