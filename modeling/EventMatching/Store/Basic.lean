/-
The store: all evaluators and indexes, and the registry of the indexes that are live.

Evaluators and indexes are shared: a client may keep one that it once got, and see it change. So each has an identity,
its place in the store, and the store only grows. The registry maps keys to identities; an index that has been released
from it stays in the store and is merely no longer live.

Operations are `Action`s: they change the store and may fail. What was changed before a failure stays changed.
-/
import EventMatching.Filter.Handle
import EventMatching.Index.Catalog

namespace EventMatching

/-- the identity of an evaluator -/
structure EvaluatorId where
  place : Nat
deriving DecidableEq

/-- the identity of an index -/
structure IndexId where
  place : Nat
deriving DecidableEq

/-- what is run on an event that satisfies a filter -/
inductive Evaluator where
  /-- reports all handles of a set -/
  | handles (set : HandleSet)
  /-- reports one handle, and then fails if it is told to -/
  | single (handle : Handle) (error : Option Error)
  /-- passes the event on to an index -/
  | nested (index : IndexId)
deriving DecidableEq

structure Store where
  catalog : Catalog EvaluatorId
  evaluators : List Evaluator := []
  indexes : List (Index EvaluatorId) := []
  registry : Table String IndexId := .empty

/-- an operation on the store that may fail -/
abbrev Action (α : Type) : Type := EStateM Error Store α

namespace Store

def evaluator? (s : Store) (ev : EvaluatorId) : Option Evaluator := s.evaluators[ev.place]?

def index? (s : Store) (i : IndexId) : Option (Index EvaluatorId) := s.indexes[i.place]?

/-- a new evaluator -/
def addEvaluator (s : Store) (e : Evaluator) : EvaluatorId × Store :=
  (⟨s.evaluators.length⟩, { s with evaluators := s.evaluators ++ [e] })

/-- a new index, which is not live -/
def addIndex (s : Store) (ix : Index EvaluatorId) : IndexId × Store :=
  (⟨s.indexes.length⟩, { s with indexes := s.indexes ++ [ix] })

/-- puts an evaluator in place of another, which keeps its identity -/
def setEvaluator (s : Store) (ev : EvaluatorId) (e : Evaluator) : Store :=
  { s with evaluators := s.evaluators.set ev.place e }

/-- puts an index in place of another, which keeps its identity -/
def setIndex (s : Store) (i : IndexId) (ix : Index EvaluatorId) : Store :=
  { s with indexes := s.indexes.set i.place ix }

/-- the handles of an evaluator that is a set of them -/
def handles? (s : Store) (ev : EvaluatorId) : Option HandleSet :=
  match s.evaluator? ev with
  | some (.handles set) => some set
  | _ => none

end Store

namespace Action

/-- makes a new evaluator -/
def newEvaluator (e : Evaluator) : Action EvaluatorId := modifyGet fun s => s.addEvaluator e

/-- makes a new index, which is not live -/
def newIndex (ix : Index EvaluatorId) : Action IndexId := modifyGet fun s => s.addIndex ix

/-- the evaluator of an index under an equal constant -/
def get? (i : IndexId) (c : Constant) : Action (Option EvaluatorId) := do
  match (← get).index? i with
  | none => pure none
  | some ix =>
    match ix.get? c with
    | .ok found => pure found
    | .error e => throw e

/-- replaces an index by what `change` makes of it -/
def change (i : IndexId) (change : Index EvaluatorId → Except Error (Index EvaluatorId)) : Action Unit := do
  match (← get).index? i with
  | none => pure ()
  | some ix =>
    match change ix with
    | .ok ix => modify fun s => s.setIndex i ix
    | .error e => throw e

/-- stores an evaluator in an index under a constant -/
def put (i : IndexId) (c : Constant) (ev : EvaluatorId) : Action Unit := change i fun ix => ix.put c ev

/-- removes the evaluator of an index under a constant -/
def remove (i : IndexId) (c : Constant) : Action Unit := change i fun ix => ix.remove c

/-- the handles of an evaluator, which must be a set of them -/
def handleSet (ev : EvaluatorId) : Action HandleSet := do
  match (← get).handles? ev with
  | some set => pure set
  | none => throw .notHandleSet

end Action
end EventMatching
