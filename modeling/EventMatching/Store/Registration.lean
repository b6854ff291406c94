/-
Registration of filters: a handle under a constant, in the index for an operator and a lookup.

Filters with equal constants share one evaluator, the set of their handles. A constant goes with its last handle, and an
index with its last constant.
-/
import EventMatching.Store.Registry

namespace EventMatching
namespace Action

/-- adds a handle to the set under a constant of an index, which is made if the constant is new -/
def addHandle (c : Constant) (h : Handle) (i : IndexId) : Action Unit := do
  match ← get? i c with
  | some ev =>
    let set ← handleSet ev
    modify fun s => s.setEvaluator ev (.handles (set.insert h))
  | none =>
    let ev ← newEvaluator (.handles (.singleton h))
    put i c ev

/-- removes a handle from the set under a constant of an index, and the constant with its last handle; tells whether the
index holds no constant then -/
def dropHandle (c : Constant) (h : Handle) (i : IndexId) : Action Bool := do
  match ← get? i c with
  | some ev =>
    let set := (← handleSet ev).erase h
    modify fun s => s.setEvaluator ev (.handles set)
    if set.isEmpty then remove i c
  | none => pure ()
  return (((← get).index? i).map Index.isEmpty).getD true

/-- registers a filter -/
def register (op : Operator) (l : Lookup) (c : Constant) (h : Handle) : Action Unit :=
  writeIndex op l (addHandle c h)

/-- takes a filter back, and drops its index if no constant is left in it -/
def unregister (op : Operator) (l : Lookup) (c : Constant) (h : Handle) : Action Unit := do
  match ← writeExisting op l (dropHandle c h) with
  | some true => discard (release op l)
  | _ => pure ()

end Action
end EventMatching
