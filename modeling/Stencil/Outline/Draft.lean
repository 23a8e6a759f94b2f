import Stencil.Outline

/-!
Building an outline from tags in document order.

The state is a zipper: the tags of the innermost open section, and for every
open section the tags that stand before it. A closing tag closes the innermost
section whatever its name, and becomes its next sibling; with nothing open it is
an ordinary tag of the outermost level.
-/

namespace Stencil.Outline

/-- Tags of one level, newest first, each with the outline of its body. -/
abbrev Level := List (Tag × Outline)

/-- The tags of a level in document order, then `tail`. -/
def ofLevel (tail : Outline) (level : Level) : Outline :=
  level.foldl (fun rest (tag, body) => cons tag body rest) tail

/-- An outline under construction. -/
structure Draft where
  /-- The finished tags of the innermost open section, or of the outermost level. -/
  level : Level
  /-- The open sections, innermost first, each with the tags before it. -/
  enclosing : List (Tag × Level)

namespace Draft

def empty : Draft := ⟨[], []⟩

/-- The number of sections still open. -/
def depth (d : Draft) : Nat := d.enclosing.length

/-- Adds a tag without a body at the innermost level. -/
def attach (d : Draft) (tag : Tag) : Draft := { d with level := (tag, nil) :: d.level }

/-- Starts a section. -/
def enter (d : Draft) (tag : Tag) : Draft := ⟨[], (tag, d.level) :: d.enclosing⟩

/-- Ends the innermost section, if any is open. -/
def leave (d : Draft) : Draft :=
  match d.enclosing with
  | [] => d
  | (tag, before) :: outer => ⟨(tag, ofLevel nil d.level) :: before, outer⟩

/-- Adds the next tag of the document. -/
def push (d : Draft) (raw : RawTag) : Draft :=
  let tag := raw.tag
  match tag.sigil with
  | some .opening | some .inverted => d.enter tag
  | some .closing => d.leave.attach tag
  | none => d.attach tag

/-- The outline so far; sections still open end where the tags end. -/
def outline (d : Draft) : Outline :=
  d.enclosing.foldl (fun body (tag, before) => ofLevel (cons tag body nil) before)
    (ofLevel nil d.level)

end Draft

/-- The outline of a sequence of tags. -/
def ofTags (tags : List RawTag) : Outline := (tags.foldl Draft.push .empty).outline

end Stencil.Outline
