/-
Which characters are shown as they are inside a quoted text: those that have a glyph of their own. From the space to the
tilde all characters have one; elsewhere all but those of three classes of code points.
-/
import EventMatching.Text.CodePoint

namespace EventMatching

/-- shown as it is inside a quoted text -/
def isPrintable (c : Char) : Bool :=
  (' ' ≤ c && c ≤ '~') ||
    !(CodePoint.inRanges CodePoint.unseen c.toNat || CodePoint.inRanges CodePoint.unassigned c.toNat ||
      CodePoint.inRanges CodePoint.extending c.toNat)

end EventMatching
