import Stencil.Text.Bytes
import Stencil.Text.Utf8

/-!
Where the lines of a text stand among its bytes. A line ends at every byte that
is a line end, so its range is found without looking at characters.
-/

namespace Stencil.Text

/-- The bytes of a text from `start` up to `stop`. -/
structure ByteRange where
  start : Nat
  stop : Nat
  deriving DecidableEq

/-- The text in a range of a text. -/
def ByteRange.slice? (range : ByteRange) (cs : List Char) : Option (List Char) :=
  Text.slice? cs range.start range.stop

/-- The byte that ends a line. -/
def lineEndByte : UInt8 := 10

/-- The lines in bytes that begin at `offset`, when the first of them begins at
`start`. -/
def rangesFrom (start offset : Nat) : List UInt8 → List ByteRange
  | [] => [⟨start, offset⟩]
  | b :: bytes =>
    if b = lineEndByte then
      ⟨start, offset⟩ :: rangesFrom (offset + 1) (offset + 1) bytes
    else rangesFrom start (offset + 1) bytes

/-- The lines of a text, without their line ends. Even an empty text has one
line. -/
def lineRanges (text : String) : List ByteRange := rangesFrom 0 0 (Utf8.encode text)

end Stencil.Text
