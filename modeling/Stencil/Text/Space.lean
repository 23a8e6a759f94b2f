/-!
White space, and texts without any at their ends.
-/

namespace Stencil.Text

/-- The first and the last characters of white space in a row, by number. -/
def spaceRanges : List (Nat × Nat) :=
  [(0x9, 0xD), (0x20, 0x20), (0x85, 0x85), (0xA0, 0xA0), (0x1680, 0x1680), (0x2000, 0x200A),
    (0x2028, 0x2029), (0x202F, 0x202F), (0x205F, 0x205F), (0x3000, 0x3000)]

def isSpace (c : Char) : Bool :=
  spaceRanges.any fun (first, last) => first ≤ c.toNat && c.toNat ≤ last

/-- A text from the first to the last character that is no white space. -/
def trim (cs : List Char) : List Char :=
  ((cs.dropWhile isSpace).reverse.dropWhile isSpace).reverse

/-- Whether there is nothing but white space. -/
def isBlank (cs : List Char) : Bool := (trim cs).isEmpty

end Stencil.Text
