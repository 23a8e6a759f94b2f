import Stencil.Position
import Stencil.Text.Affix
import Stencil.Text.Bytes

/-!
Tags: the markers between double braces that a template is made of.

A `RawTag` is a tag as it stands in the source. `RawTag.parts` takes its
delimiters off and finds the third brace and the sigil; `RawTag.tag` is the tag
that the outline of a template holds.
-/

namespace Stencil

/-- The character after the opening braces that makes a tag open or close a
section. A tag without one stands for a variable. -/
inductive Sigil
  /-- `#` opens a section that is repeated over its value. -/
  | opening
  /-- `^` opens a section that is shown where its value is missing. -/
  | inverted
  /-- `/` closes the innermost section. -/
  | closing
  deriving DecidableEq

namespace Sigil

def char : Sigil → Char
  | opening => '#'
  | inverted => '^'
  | closing => '/'

def ofChar? (c : Char) : Option Sigil :=
  if c = '#' then some opening
  else if c = '^' then some inverted
  else if c = '/' then some closing
  else none

theorem ofChar?_char (s : Sigil) : ofChar? s.char = some s := by
  cases s <;> rfl

theorem ofChar?_eq_some_iff {c : Char} {s : Sigil} : ofChar? c = some s ↔ c = s.char := by
  constructor
  · intro h
    unfold ofChar? at h
    split at h
    · cases h; assumption
    · split at h
      · cases h; assumption
      · split at h <;> cases h; assumption
  · rintro rfl; exact ofChar?_char s

/-- Whether the sigil starts a section of either kind. -/
def opens : Sigil → Bool
  | opening | inverted => true
  | closing => false

end Sigil

/-! ## Tags as they stand in the source -/

/-- A tag with its delimiters, and the place of its first brace. -/
structure RawTag where
  position : Position
  text : String
  deriving DecidableEq

/-- What is inside a tag. -/
structure TagParts where
  /-- Whether a third opening brace asks for unescaped output. -/
  raw : Bool
  sigil : Option Sigil
  name : String
  deriving DecidableEq

/-- One tag of a template. -/
structure Tag where
  name : String
  position : Position
  /-- The number of bytes that the tag takes up in the source. -/
  width : Nat
  raw : Bool
  sigil : Option Sigil
  deriving DecidableEq

namespace RawTag

/-- The number of bytes from the first brace to the last. -/
def width (t : RawTag) : Nat := Text.byteLength t.text.toList

/-- The inside of a tag between its outer pairs of braces. -/
def inside (t : RawTag) : List Char :=
  let cs := (Text.dropPrefix? ['{', '{'] t.text.toList).getD t.text.toList
  (Text.dropSuffix? ['}', '}'] cs).getD cs

/-- The pieces of a tag. Any text has pieces: braces that are missing are simply
not taken off, and the third pair of braces need not be a pair. -/
def parts (t : RawTag) : TagParts :=
  let braced := Text.dropPrefix? ['{'] t.inside
  let cs := braced.getD t.inside
  let inner := (Text.dropSuffix? ['}'] cs).getD cs
  match inner.head?.bind Sigil.ofChar? with
  | some sigil => ⟨braced.isSome, some sigil, String.ofList inner.tail⟩
  | none => ⟨braced.isSome, none, String.ofList inner⟩

/-- The tag that a raw tag stands for. -/
def tag (t : RawTag) : Tag :=
  { name := t.parts.name
    position := t.position
    width := t.width
    raw := t.parts.raw
    sigil := t.parts.sigil }

end RawTag

namespace Tag

/-- The word for the tags with a sigil, or without one, in messages to the data
source. -/
def kindName : Option Sigil → String
  | none => "name"
  | some .opening => "contains"
  | some .inverted => "not"
  | some .closing => "end"

/-- The place just behind the tag. -/
def stop (t : Tag) : Position := t.position.advance t.width

/-- Whether the tag starts a section of either kind. -/
def opens (t : Tag) : Bool := t.sigil.any Sigil.opens

def isVariable (t : Tag) : Bool := t.sigil.isNone

def isClosing (t : Tag) : Bool := t.sigil = some .closing

end Tag

end Stencil
