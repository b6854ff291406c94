/-
Documents: the tree of data that values and shapes are written to and read from.

A number in a document is either an integer or a finite decimal. Decimals that are not finite have no written form and
become null. A record may be read from an object, in which further fields are ignored, or from a list of its fields in
order, which may end early.
-/
import EventMatching.Numeric.Arithmetic

namespace EventMatching

inductive Document where
  | null
  | bool (b : Bool)
  | int (n : Int)
  | real (x : Binary64)
  | text (s : String)
  | list (items : List Document)
  | object (fields : List (String × Document))

namespace Document

/-- a decimal as a document -/
def ofDouble (x : Binary64) : Document := if x.isFinite then real x else null

/-- any number of a document as a double, integers being rounded -/
def asDouble : Document → Option Binary64
  | int n => some (.ofInt n)
  | real x => some x
  | _ => none

/-- any number of a document, rounded to single precision -/
def asSingle : Document → Option Binary32
  | int n => some (.ofInt n)
  | real x => some x.convert
  | _ => none

/-- an integer of a document, if it is less than 2^32 and not negative -/
def asWord : Document → Option UInt32
  | int n => if 0 ≤ n ∧ n < 4294967296 then some (UInt32.ofNat n.toNat) else none
  | _ => none

def asBool : Document → Option Bool
  | bool b => some b
  | _ => none

def asText : Document → Option String
  | text s => some s
  | _ => none

/-- the fields of a record in order, `none` where one is missing; a list must not be longer than the record -/
def record (names : List String) : Document → Option (List (Option Document))
  | object fields => some (names.map fun name => fields.lookup name)
  | list items =>
    if items.length ≤ names.length then
      some (items.map some ++ List.replicate (names.length - items.length) none)
    else none
  | _ => none

end Document
end EventMatching
