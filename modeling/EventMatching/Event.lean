/-
Events: a type name, and properties by name, kept in the order of their names.
-/
import EventMatching.Value

namespace EventMatching

structure Event where
  type : String
  properties : List (String × Value) := []
deriving DecidableEq

namespace Event

/-- two events are equal if they have the same type and property names, and equal values under each -/
instance : BEq Event := ⟨fun a b => a.type == b.type && a.properties == b.properties⟩

/-- the value of a property, if the event has it -/
def get? (e : Event) (name : String) : Option Value := e.properties.lookup name

/-- sets a property in a list ordered by name -/
def putInto (name : String) (v : Value) : List (String × Value) → List (String × Value)
  | [] => [(name, v)]
  | (n, w) :: rest =>
    if name < n then (name, v) :: (n, w) :: rest
    else if name = n then (n, v) :: rest
    else (n, w) :: putInto name v rest

/-- sets a property, whether the event had it or not -/
def put (e : Event) (name : String) (v : Value) : Event :=
  { e with properties := putInto name v e.properties }

def names (e : Event) : List String := e.properties.map (·.1)

def display (e : Event) : String :=
  e.type ++ "\x7b" ++ ", ".intercalate (e.properties.map fun p => p.1 ++ "=" ++ p.2.quoted) ++ "\x7d"

end Event
end EventMatching
