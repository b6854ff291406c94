/-
The operator of a filter, and the constant it compares with.
-/
import EventMatching.Value
import EventMatching.Geometry.Rect

namespace EventMatching

/-- what a filter demands of an event: a value equal to its constant, or a rectangle that meets its constant -/
inductive Operator where
  | equal
  | area
deriving DecidableEq

namespace Operator

def display : Operator → String
  | equal => "="
  | area => "advanced-index"

end Operator

/-- what a filter compares with -/
inductive Constant where
  | value (v : Value)
  | rect (r : Rect)
deriving DecidableEq

namespace Constant

instance : BEq Constant := ⟨fun
  | value v, value w => v == w
  | rect r, rect s => r == s
  | _, _ => false⟩

def asValue : Constant → Option Value
  | value v => some v
  | rect _ => none

def asRect : Constant → Option Rect
  | rect r => some r
  | value _ => none

def display : Constant → String
  | value v => v.quoted
  | rect r => r.display

end Constant
end EventMatching
