/-
Values, rectangles, boxes and regions as documents.

A value is written under the name of its kind; the shapes are records. The last three fields of a region may be missing
and then have their defaults. Reading refuses a number out of range, a decimal for an integer and null for a number.
-/
import EventMatching.Document.Basic
import EventMatching.Value
import EventMatching.Region

namespace EventMatching

namespace IntType

def all : List IntType := [i8, u8, i16, u16, i32, u32, i64, u64]

/-- the name of the type in documents -/
def tag : IntType → String
  | i8 => "I8" | u8 => "U8" | i16 => "I16" | u16 => "U16" | i32 => "I32" | u32 => "U32" | i64 => "I64" | u64 => "U64"

end IntType

namespace Value

def toDocument : Value → Document
  | null => .text "Null"
  | bool b => .object [("Bool", .bool b)]
  | int t n _ => .object [(t.tag, .int n)]
  | single x => .object [("F32", .ofDouble x.convert)]
  | double x => .object [("F64", .ofDouble x)]
  | text s => .object [("String", .text s)]

/-- an integer of a given type -/
def integerOf (t : IntType) : Document → Option Value
  | .int n => if h : t.Fits n then some (int t n h) else none
  | _ => none

/-- the value written under the name of a kind -/
def ofTagged (tag : String) (content : Document) : Option Value :=
  if tag = "Null" then
    match content with
    | .null => some null
    | _ => none
  else if tag = "Bool" then content.asBool.map bool
  else if tag = "F32" then content.asSingle.map single
  else if tag = "F64" then content.asDouble.map double
  else if tag = "String" then content.asText.map text
  else
    match IntType.all.find? fun t => t.tag == tag with
    | some t => integerOf t content
    | none => none

def ofDocument : Document → Option Value
  | .text tag => if tag = "Null" then some null else none
  | .object [(tag, content)] => ofTagged tag content
  | _ => none

end Value

namespace Rect

def toDocument (r : Rect) : Document :=
  .object [("x", .ofDouble r.x), ("y", .ofDouble r.y), ("w", .ofDouble r.w), ("h", .ofDouble r.h)]

def ofDocument (d : Document) : Option Rect :=
  match d.record ["x", "y", "w", "h"] with
  | some [some x, some y, some w, some h] => do
    return ⟨← x.asDouble, ← y.asDouble, ← w.asDouble, ← h.asDouble⟩
  | _ => none

end Rect

namespace Box

def toDocument (b : Box) : Document :=
  .object [("min_x", .ofDouble b.minX), ("min_y", .ofDouble b.minY), ("max_x", .ofDouble b.maxX),
    ("max_y", .ofDouble b.maxY)]

def ofDocument (d : Document) : Option Box :=
  match d.record ["min_x", "min_y", "max_x", "max_y"] with
  | some [some minX, some minY, some maxX, some maxY] => do
    return ⟨← minX.asDouble, ← minY.asDouble, ← maxX.asDouble, ← maxY.asDouble⟩
  | _ => none

end Box

namespace Region

def toDocument (g : Region) : Document :=
  .object [("x", .ofDouble g.x), ("y", .ofDouble g.y), ("width", .ofDouble g.width), ("height", .ofDouble g.height),
    ("max_tree_height", .int g.maxHeight.toNat), ("min_node_size", .ofDouble g.minNodeSize),
    ("prune_empty_nodes", .bool g.prune)]

/-- what is read from a field, or its default if the field is missing -/
def fieldOr {α : Type} (default : α) (read : Document → Option α) : Option Document → Option α
  | none => some default
  | some d => read d

def ofDocument (d : Document) : Option Region :=
  match d.record ["x", "y", "width", "height", "max_tree_height", "min_node_size", "prune_empty_nodes"] with
  | some [some x, some y, some width, some height, maxHeight, minNodeSize, prune] => do
    return ⟨← x.asDouble, ← y.asDouble, ← width.asDouble, ← height.asDouble, ← fieldOr 20 Document.asWord maxHeight,
      ← fieldOr .zero Document.asDouble minNodeSize, ← fieldOr false Document.asBool prune⟩
  | _ => none

end Region
end EventMatching
