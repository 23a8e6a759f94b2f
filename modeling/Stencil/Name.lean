import Stencil.Text.Split

/-!
Names in tags: segments of letters, digits and `_`, with dots between them. Empty
segments mean nothing, so a name may have dots to spare, and one that is all dots
has no segment at all.
-/

namespace Stencil

/-- The characters of a name. -/
def isNameChar (c : Char) : Bool := c.isAlphanum || c = '_' || c = '.'

/-- The segments of dotted text. -/
def segments (name : String) : List String :=
  (Text.splitString '.' name).filter (· ≠ "")

end Stencil
