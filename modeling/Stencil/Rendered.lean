/-!
Output of a render. Rendering yields pieces: texts, and the line ends copied
from the source. Lines end at the copied line ends only; a line end inside a
value is part of a line.
-/

namespace Stencil

/-- A piece of output. -/
inductive Piece
  | text (content : String)
  /-- A copied line end, with the number of the source line behind it. -/
  | newLine (sourceLine : Nat)
  deriving DecidableEq

/-- A line of output, and the number of the source line it comes from. -/
structure OutputLine where
  sourceLine : Nat
  text : String
  deriving DecidableEq

namespace OutputLine

/-- The lines of a sequence of pieces, of which the first has `text` already. -/
def ofPieces (sourceLine : Nat) (text : String) : List Piece → List OutputLine
  | [] => [⟨sourceLine, text⟩]
  | .text content :: pieces => ofPieces sourceLine (text ++ content) pieces
  | .newLine next :: pieces => ⟨sourceLine, text⟩ :: ofPieces next "" pieces

end OutputLine

/-- The output of one render. -/
structure Rendered where
  outputLines : List OutputLine
  /-- Whether lines are shown with their numbers. -/
  numbered : Bool
  deriving DecidableEq

namespace Rendered

/-- The output made of pieces; it starts on source line 0. -/
def ofPieces (numbered : Bool) (pieces : List Piece) : Rendered :=
  ⟨OutputLine.ofPieces 0 "" pieces, numbered⟩

/-- The lines as they are shown. -/
def lines (r : Rendered) : List String :=
  r.outputLines.map fun line =>
    if r.numbered then s!"{line.sourceLine} | {line.text}" else line.text

def text (r : Rendered) : String := String.intercalate "\n" r.lines

end Rendered

end Stencil
