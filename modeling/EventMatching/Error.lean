/-
Errors, as causes: what went wrong and with what, apart from the words for it.

`Error.message` and `Error.kind` give the text and the category of each cause; an error handed in by a caller (`raised`)
brings its own. `wrapped` puts an error on top of the one that caused it. Errors of a quadtree are `TreeError`s, which
become errors of an index by `Error.tree`.
-/
import EventMatching.Numeric.Reader
import EventMatching.Region
import EventMatching.Filter.Constant

namespace EventMatching

/-- the category of an error -/
inductive ErrorKind where
  | filter
  | indexing
  | indexNotFound
  | invalidOperation
  | typeCoercion
  | invalidDataType
  | validation
  | extension (name : String)
  | internal
deriving DecidableEq

namespace ErrorKind

def display : ErrorKind → String
  | filter => "Filter error"
  | indexing => "Indexing error"
  | indexNotFound => "Index not found"
  | invalidOperation => "Invalid operation"
  | typeCoercion => "Type coercion error"
  | invalidDataType => "Invalid data type"
  | validation => "Validation error"
  | extension name => name ++ " error"
  | internal => "Internal error"

end ErrorKind

/-- what a quadtree, or an index over one, refuses -/
inductive TreeError where
  | outOfRegion (rect region : Rect)
  | invalidRect (shown : String)
  | invalidRegion (reason : String)
  | unsupportedConstant (shown : String)
deriving DecidableEq

namespace TreeError

def message : TreeError → String
  | outOfRegion r g => "Rectangle " ++ r.display ++ " lies outside the quadtree region " ++ g.display
  | invalidRect shown => "Invalid rectangle: " ++ shown
  | invalidRegion reason => "Invalid quadtree configuration: " ++ reason
  | unsupportedConstant shown => "Quadtree index cannot use constant " ++ shown

def kind : TreeError → ErrorKind
  | outOfRegion _ _ | invalidRect _ | invalidRegion _ => .validation
  | unsupportedConstant _ => .invalidDataType

end TreeError

inductive Error where
  /-- the value of `context` is no number -/
  | notNumeric (context : String) (found : Value)
  | unreadableNumber (fault : NumberFault)
  | invalidRect (rect : Rect)
  | regionExtent (region : Region)
  | regionHeight
  | regionNodeSize (size : Binary64)
  | tree (error : TreeError)
  /-- no index can be built for the operator -/
  | unservedOperator (operator : Operator)
  /-- the operator reads one field, not a rectangle -/
  | needsField (operator : Operator) (lookup : String)
  /-- the operator reads a rectangle, not one field -/
  | needsArea (operator : Operator) (lookup : String)
  /-- an index by equality holds values, not rectangles -/
  | needsValue (lookup : String) (constant : Constant)
  | notHandleSet
  /-- an index is no longer live where it must be -/
  | vanished (key : String)
  /-- an error in the words of a caller -/
  | raised (kind : ErrorKind) (message : String)
  | wrapped (kind : ErrorKind) (message : String) (cause : Error)
deriving DecidableEq

namespace Error

def kind : Error → ErrorKind
  | notNumeric _ _ | unreadableNumber _ => .typeCoercion
  | invalidRect _ | regionExtent _ | regionHeight | regionNodeSize _ => .validation
  | tree e => e.kind
  | unservedOperator _ => .indexing
  | needsField _ _ | needsArea _ _ => .invalidOperation
  | needsValue _ _ => .invalidDataType
  | notHandleSet | vanished _ => .internal
  | raised k _ | wrapped k _ _ => k

def message : Error → String
  | notNumeric context v =>
    "Expected a numeric value for " ++ context ++ " but found " ++ v.typeName ++ " (" ++ v.display ++ ")"
  | unreadableNumber fault => "Float parsing error: " ++ fault.message
  | invalidRect r =>
    "Invalid rectangle " ++ r.display ++ ": fields must be finite and width/height non-negative"
  | regionExtent g => "Quadtree region must be finite with positive extent: " ++ g.display
  | regionHeight => "Quadtree max tree height must be at least 1"
  | regionNodeSize size => "Quadtree min node size must be finite and non-negative, got " ++ size.text
  | tree e => e.message
  | unservedOperator op => "No filter index plugin registered for operator " ++ op.display
  | needsField op lookup => "Operator " ++ op.display ++ " requires a simple lookupable, got " ++ lookup
  | needsArea op lookup => "Operator " ++ op.display ++ " requires an advanced index lookupable, got " ++ lookup
  | needsValue lookup c => "Equality index on " ++ lookup ++ " requires a value constant, got " ++ c.display
  | notHandleSet => "Evaluator is not a handle set"
  | vanished key => "Filter index " ++ key ++ " vanished while the registry was locked"
  | raised _ m | wrapped _ m _ => m

/-- the error that brought this one about -/
def cause : Error → Option Error
  | wrapped _ _ e => some e
  | _ => none

/-- the error and its causes, the outermost first -/
def chain : Error → List Error
  | wrapped k m e => wrapped k m e :: e.chain
  | e => [e]

/-- the messages of an error and its causes in one text -/
def report (e : Error) : String := "\nCaused by: ".intercalate (e.chain.map message)

/-- the error that a bare text stands for -/
def ofText (s : String) : Error := raised .internal s

end Error

end EventMatching
