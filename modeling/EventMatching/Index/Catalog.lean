/-
Catalogs: how the index for an operator is built.

A catalog has at most one builder per operator. Every catalog starts with the builder for equality; others are added by
extensions, which may fail after they have changed the catalog.
-/
import EventMatching.Index.Basic

namespace EventMatching

/-- makes an empty index for an operator over a lookup -/
abbrev Builder (E : Type) : Type := Operator → Lookup → Except Error (Index E)

namespace Builder

variable {E : Type}

/-- builds indexes by equality, over fields only -/
def equality : Builder E := fun op l =>
  match l with
  | .field f => .ok (.ofField f)
  | .area a => .error (.needsField op a.expression)

/-- builds indexes by area, over areas only -/
def area : Builder E := fun op l =>
  match l with
  | .field f => .error (.needsArea op f.expression)
  | .area a => Index.ofArea a

end Builder

/-- the builders by operator -/
structure Catalog (E : Type) where
  builder : Operator → Option (Builder E)

/-- a change to a catalog that may fail, and then keeps what it has changed so far -/
abbrev Extension (E : Type) : Type := EStateM Error (Catalog E) Unit

namespace Catalog

variable {E : Type}

/-- the catalog with the builder for equality only -/
def basic : Catalog E := ⟨fun | .equal => some .equality | .area => none⟩

/-- makes a builder serve an operator, in place of the one that did -/
def register (c : Catalog E) (op : Operator) (b : Builder E) : Catalog E :=
  ⟨fun o => if o = op then some b else c.builder o⟩

def supports (c : Catalog E) (op : Operator) : Bool := (c.builder op).isSome

/-- an empty index for an operator over a lookup -/
def build (c : Catalog E) (op : Operator) (l : Lookup) : Except Error (Index E) :=
  match c.builder op with
  | some b => b op l
  | none => .error (.unservedOperator op)

/-- loads an extension; if it fails, its error is returned along with the catalog that it leaves -/
def load (c : Catalog E) (x : Extension E) : Option Error × Catalog E :=
  match x c with
  | .ok _ c => (none, c)
  | .error e c => (some e, c)

end Catalog

namespace Extension

/-- registers a builder for an operator -/
def register {E : Type} (op : Operator) (b : Builder E) : Extension E := modify fun c => c.register op b

/-- adds indexes by area -/
def spatial {E : Type} : Extension E := register .area .area

end Extension

/-- the catalog with the builders for equality and for areas -/
def Catalog.spatial {E : Type} : Catalog E := basic.register .area .area

end EventMatching
