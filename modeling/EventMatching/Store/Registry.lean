/-
The registry: one live index for each operator and lookup.

An index becomes live when it is first asked for, and is shared by all who ask for the same key from then on. It can be
released only while it holds no constant. Writing goes through the registry, so that an index is live while it is written.
-/
import EventMatching.Store.Basic

namespace EventMatching

/-- the key of an index in the registry -/
def registryKey (op : Operator) (l : Lookup) : String := op.display ++ "|" ++ l.key

namespace Store

/-- the live index for an operator and a lookup -/
def live? (s : Store) (op : Operator) (l : Lookup) : Option IndexId := s.registry.get? (registryKey op l)

/-- all live indexes, the longest registered first -/
def live (s : Store) : List IndexId := s.registry.values

def liveCount (s : Store) : Nat := s.registry.size

/-- drops the live index for an operator and a lookup if it holds no constant, and tells whether it did -/
def release (s : Store) (op : Operator) (l : Lookup) : Bool × Store :=
  match s.live? op l with
  | none => (false, s)
  | some i =>
    if ((s.index? i).map Index.isEmpty).getD false then
      (true, { s with registry := s.registry.erase (registryKey op l) })
    else (false, s)

end Store

namespace Action

/-- builds an index that is not live -/
def build (op : Operator) (l : Lookup) : Action IndexId := do
  match (← get).catalog.build op l with
  | .ok ix => newIndex ix
  | .error e => throw e

/-- builds an index and makes it live -/
def create (op : Operator) (l : Lookup) : Action IndexId := do
  let i ← build op l
  modify fun s => { s with registry := s.registry.insert (registryKey op l) i }
  pure i

/-- the live index for an operator and a lookup, which is built if there is none -/
def getOrCreate (op : Operator) (l : Lookup) : Action IndexId := do
  match (← get).live? op l with
  | some i => pure i
  | none =>
    -- a second look, with the registry closed to others: one of them may have come first
    match (← get).live? op l with
    | some i => pure i
    | none => create op l

/-- sees to it that there is a live index for an operator and a lookup -/
def ensure (op : Operator) (l : Lookup) : Action Unit := do
  match (← get).live? op l with
  | some _ => pure ()
  | none =>
    match (← get).live? op l with
    | some _ => pure ()
    | none => discard (create op l)

/-- works on the live index for an operator and a lookup, which is built if there is none -/
def writeIndex {α : Type} (op : Operator) (l : Lookup) (body : IndexId → Action α) : Action α := do
  ensure op l
  match (← get).live? op l with
  | some i => body i
  | none => throw (.vanished (registryKey op l))

/-- works on the live index for an operator and a lookup, if there is one -/
def writeExisting {α : Type} (op : Operator) (l : Lookup) (body : IndexId → Action α) : Action (Option α) := do
  match (← get).live? op l with
  | some i => return some (← body i)
  | none => pure none

/-- drops the live index for an operator and a lookup if it holds no constant, and tells whether it did -/
def release (op : Operator) (l : Lookup) : Action Bool := modifyGet fun s => s.release op l

end Action
end EventMatching
