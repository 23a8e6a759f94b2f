import Stencil.Diagnostic
import Stencil.Outline.Draft
import Stencil.Tag.Scan
import Stencil.Text.Ranges

/-!
A template: its source text, where the lines of that text are, and the outline
of its tags. `Template.parse` accepts every text; `Template.parseWith` can be asked to
refuse a text whose sections do not match.
-/

namespace Stencil

structure Template where
  source : String
  /-- The lines of the source, without their line ends. -/
  lines : List Text.ByteRange
  outline : Outline
  deriving DecidableEq

/-- Why a template is refused: its first problem and how many there are. -/
structure ParseError where
  first : Diagnostic
  count : Nat
  deriving DecidableEq

namespace ParseError

def position (e : ParseError) : Position := e.first.position

def message (e : ParseError) : String :=
  s!"unbalanced sections ({e.count} problem(s)), first: {e.first.message}"

end ParseError

namespace Template

/-- The template of a text. -/
def parse (source : String) : Template :=
  { source
    lines := Text.lineRanges source
    outline := .ofTags (scan source) }

/-- The number of lines; at least one. -/
def lineCount (t : Template) : Nat := t.lines.length

/-- A line without its line end, if the text has it. -/
def line? (t : Template) (index : Nat) : Option (List Char) :=
  t.lines[index]?.bind fun range => range.slice? t.source.toList

/-- A line without its line end. There is nothing on a line the text lacks. -/
def line (t : Template) (index : Nat) : List Char := (t.line? index).getD []

/-- The place just behind the last character. -/
def stop (t : Template) : Position :=
  ⟨t.lineCount - 1, Text.byteLength (t.line (t.lineCount - 1))⟩

def diagnostics (t : Template) : List Diagnostic := t.outline.diagnostics

/-- The number of tags. -/
def tagCount (t : Template) : Nat := t.outline.size

/-- The template of a text, refused under `strict` if it has any problem. -/
def parseWith (strict : Bool) (source : String) : Except ParseError Template :=
  let template := parse source
  match template.diagnostics with
  | [] => .ok template
  | first :: others =>
    if strict then .error ⟨first, others.length + 1⟩ else .ok template

end Template

end Stencil
