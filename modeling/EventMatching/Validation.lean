/-
Checks on what comes in: rectangles, regions, and values and texts that have to be numbers.
-/
import EventMatching.Error

namespace EventMatching

/-- a rectangle with finite fields and no negative extent -/
def Rect.validate (x y w h : Binary64) : Except Error Rect :=
  let r : Rect := ⟨x, y, w, h⟩
  if r.isValid then .ok r else .error (.invalidRect r)

/-- the area is finite with a positive extent, a tree over it may have a level, and the least node size is a finite
number that is not negative; the first check that fails is reported -/
def Region.validate (g : Region) : Except Error Unit :=
  if !(g.x.isFinite && g.y.isFinite && g.width.isFinite && g.height.isFinite) ||
      g.width.le Binary.zero || g.height.le Binary.zero then
    .error (.regionExtent g)
  else if g.maxHeight = 0 then .error .regionHeight
  else if !g.minNodeSize.isFinite || g.minNodeSize.lt Binary.zero then .error (.regionNodeSize g.minNodeSize)
  else .ok ()

/-- the number that a value stands for; `context` names what was read -/
def Value.coerce (v : Value) (context : String) : Except Error Binary64 :=
  match v.asDouble with
  | some x => .ok x
  | none => .error (.notNumeric context v)

/-- the number that a text writes -/
def readNumber (s : String) : Except Error Binary64 := (Binary.read s).mapError .unreadableNumber

end EventMatching
