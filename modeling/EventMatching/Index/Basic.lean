/-
Filter indexes: which evaluators are run on an event.

An index holds evaluators under the constants of filters. An index by equality reads one field of an event and runs the
evaluator under an equal value; null is equal to nothing here. An index by area reads a rectangle and runs the evaluators
under all rectangles that meet it. What an evaluator is and does is left open: `visit` runs each with a function that may
change a state and may fail, and stops at the first failure with the state reached so far.
-/
import EventMatching.Lookup
import EventMatching.Quadtree.Basic

namespace EventMatching

inductive Index (E : Type) where
  | equality (field : Field) (evaluators : Table Value E)
  | area (area : Area) (tree : Quadtree E)

namespace Index

variable {E σ : Type}

/-- the operator that the index serves -/
def operator : Index E → Operator
  | equality _ _ => .equal
  | area _ _ => .area

/-- what the index reads off events -/
def lookup : Index E → Lookup
  | equality f _ => .field f
  | area a _ => .area a

/-- an empty index by equality -/
def ofField (f : Field) : Index E := equality f .empty

/-- an empty index by area, if a tree can be built over its region -/
def ofArea (a : Area) : Except Error (Index E) :=
  match Quadtree.new a.region with
  | .ok tree => .ok (area a tree)
  | .error e => .error (.tree e)

/-- the value of a constant, which an index by equality needs -/
def valueOf (f : Field) (c : Constant) : Except Error Value :=
  match c with
  | .value v => .ok v
  | .rect _ => .error (.needsValue f.expression c)

/-- the rectangle of a constant, which an index by area needs -/
def rectOf (c : Constant) : Except Error Rect :=
  match c with
  | .rect r => .ok r
  | .value _ => .error (.tree (.unsupportedConstant c.display))

/-- the evaluator under an equal constant -/
def get? (ix : Index E) (c : Constant) : Except Error (Option E) :=
  match ix with
  | equality f t => (valueOf f c).map t.get?
  | area _ t => (rectOf c).map t.get?

/-- stores an evaluator, in place of one under an equal constant -/
def put (ix : Index E) (c : Constant) (ev : E) : Except Error (Index E) :=
  match ix with
  | equality f t => (valueOf f c).map fun v => equality f (t.insert v ev)
  | area a t =>
    match rectOf c with
    | .error e => .error e
    | .ok r =>
      match t.insert r ev with
      | .error e => .error (.tree e)
      | .ok (_, t) => .ok (area a t)

/-- removes the evaluator under an equal constant, if there is one -/
def remove (ix : Index E) (c : Constant) : Except Error (Index E) :=
  match ix with
  | equality f t => (valueOf f c).map fun v => equality f (t.erase v)
  | area a t => (rectOf c).map fun r => area a (t.remove r).2

/-- number of constants -/
def size : Index E → Nat
  | equality _ t => t.size
  | area _ t => t.count

def isEmpty : Index E → Bool
  | equality _ t => t.isEmpty
  | area _ t => t.isEmpty

/-- runs the evaluators whose constants the event satisfies -/
def visit (ix : Index E) (event : Event) (run : E → EStateM Error σ Unit) : EStateM Error σ Unit :=
  match ix with
  | equality f t =>
    match f.extract event with
    | .error e => throw e
    | .ok v =>
      if v.isNull then pure ()
      else
        match t.get? v with
        | some ev => run ev
        | none => pure ()
  | area a t =>
    match a.query event with
    | .error e => throw e
    | .ok r => t.collect r fun _ ev => run ev

/-- the text of an index, which hides what it holds while it is being written -/
def label (ix : Index E) (beingWritten : Bool) : String :=
  if beingWritten then "FilterParamIndex(<locked>)"
  else "FilterParamIndex(" ++ ix.operator.display ++ " " ++ ix.lookup.expression ++ ")"

end Index
end EventMatching
