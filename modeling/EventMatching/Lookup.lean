/-
Lookups: what an index reads off each event.

A `Field` is an expression with the function that evaluates it; the expression is its name in texts and keys. An `Area`
reads a rectangle by four fields and lies in a region. `Lookup.key` names what is read: fields with one expression share
a key, and areas need the same region besides.
-/
import EventMatching.Validation
import EventMatching.Event

namespace EventMatching

/-- an expression, and how it is evaluated on an event -/
structure Field where
  expression : String
  extract : Event → Except Error Value

namespace Field

/-- reads the property of that name; a property that the event lacks is null -/
def property (name : String) : Field := ⟨name, fun e => .ok (.ofOption (e.get? name))⟩

/-- the value as a number; the expression names it in the error -/
def number (f : Field) (e : Event) : Except Error Binary64 :=
  match f.extract e with
  | .ok v => v.coerce f.expression
  | .error err => .error err

/-- how a field is shown in lists of them -/
def label (f : Field) : String := "FilterSpecLookupable(" ++ f.expression ++ ")"

end Field

/-- reads a rectangle off an event, to be looked up in a region -/
structure Area where
  x : Field
  y : Field
  width : Field
  height : Field
  region : Region

namespace Area

/-- reads the four properties of these names -/
def properties (x y width height : String) (region : Region) : Area :=
  ⟨.property x, .property y, .property width, .property height, region⟩

def fields (a : Area) : List Field := [a.x, a.y, a.width, a.height]

def expression (a : Area) : String :=
  "rectangle(" ++ ",".intercalate (a.fields.map Field.expression) ++ ")"

/-- the rectangle that an event asks about, or the error of the first field that gives no number -/
def query (a : Area) (e : Event) : Except Error Rect := do
  let x ← a.x.number e
  let y ← a.y.number e
  let w ← a.width.number e
  let h ← a.height.number e
  return ⟨x, y, w, h⟩

end Area

/-- what an index reads off an event: one value, or a rectangle -/
inductive Lookup where
  | field (f : Field)
  | area (a : Area)

namespace Lookup

def isArea : Lookup → Bool
  | field _ => false
  | area _ => true

def fields : Lookup → List Field
  | field f => [f]
  | area a => a.fields

def expression : Lookup → String
  | field f => f.expression
  | area a => a.expression

/-- names what is read: the expression, and for an area also its region -/
def key : Lookup → String
  | field f => f.expression
  | area a => a.expression ++ "@" ++ a.region.key

end Lookup
end EventMatching
