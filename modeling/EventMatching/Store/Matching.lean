/-
Matching: the handles of the filters that an event satisfies.

Matching only reads the store. It appends handles to a list, and if an evaluator or a field fails it stops there and keeps
what it has appended. Evaluators may pass the event on to further indexes; a chain of such indexes is followed as far as
there are indexes, which is the whole chain unless it comes back to an index that it has gone through.
-/
import EventMatching.Store.Registry

namespace EventMatching

/-- appends handles to the matches found so far, or fails -/
abbrev Matching : Type := EStateM Error (List Handle) Unit

namespace Store

/-- runs an evaluator, following indexes that it passes the event on to through `depth` further ones -/
def evaluate (s : Store) (event : Event) : (depth : Nat) → EvaluatorId → Matching
  | depth, ev =>
    match s.evaluator? ev with
    | none => pure ()
    | some (.handles set) => modify (· ++ set.toList)
    | some (.single h error) => do
      modify (· ++ [h])
      match error with
      | none => pure ()
      | some e => throw e
    | some (.nested i) =>
      match depth, s.index? i with
      | depth + 1, some ix => ix.visit event (s.evaluate event depth)
      | _, _ => pure ()

/-- runs an evaluator on an event -/
def matchEvaluator (s : Store) (event : Event) (ev : EvaluatorId) : Matching :=
  s.evaluate event s.indexes.length ev

/-- runs the evaluators of an index whose constants the event satisfies -/
def matchIndex (s : Store) (event : Event) (i : IndexId) : Matching :=
  match s.index? i with
  | none => pure ()
  | some ix => ix.visit event (s.evaluate event (s.indexes.length - 1))

/-- matches an event against some indexes in turn, up to the first that fails -/
def matchIndexes (s : Store) (event : Event) (indexes : List IndexId) : Matching :=
  indexes.forM (s.matchIndex event)

/-- matches an event against all live indexes -/
def matchEvent (s : Store) (event : Event) : Matching := s.matchIndexes event s.live

end Store
end EventMatching
