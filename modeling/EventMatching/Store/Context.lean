/-
Contexts: a store together with the region that its clients agree on.
-/
import EventMatching.Store.Registration
import EventMatching.Store.Matching

namespace EventMatching

structure Context where
  store : Store
  region : Region

namespace Context

/-- the region of a context that names no other: from (0, 0) to (100, 100) -/
def defaultRegion : Region := ⟨.zero, .zero, .ofInt 100, .ofInt 100, 20, .zero, false⟩

/-- an empty store over a catalog -/
def ofCatalog (c : Catalog EvaluatorId) (g : Region) : Context := ⟨⟨c, [], [], .empty⟩, g⟩

/-- a context with indexes by equality only -/
def plain : Context := ofCatalog .basic defaultRegion

/-- a context with indexes by equality and by area; its region must be valid -/
def spatial (g : Region) : Except Error Context :=
  match g.validate with
  | .ok () => .ok (ofCatalog .spatial g)
  | .error e => .error e

/-- reads the position of an event: the properties `px`, `py`, `pw` and `ph`, in the region of the context -/
def position (c : Context) : Lookup := .area (.properties "px" "py" "pw" "ph" c.region)

end Context
end EventMatching
