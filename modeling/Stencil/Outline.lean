import Stencil.Tag

/-!
The outline of a template: its tags, nested by sections.

A section holds the tags of its body, and the tag that closes it is its next
sibling. The closing tag need not carry the section's name, and it may be
missing. An outline is written first child, next sibling, so that one recursion
walks it in document order.
-/

namespace Stencil

/-- A list of tags, each with the outline of its body. -/
inductive Outline
  | nil
  | cons (tag : Tag) (body rest : Outline)
  deriving DecidableEq

namespace Outline

/-- The number of tags at any depth. -/
def size : Outline → Nat
  | nil => 0
  | cons _ body rest => 1 + body.size + rest.size

/-- All tags in document order: each before its body, its body before its next
sibling. -/
def tags : Outline → List Tag
  | nil => []
  | cons tag body rest => tag :: (body.tags ++ rest.tags)

theorem length_tags (o : Outline) : o.tags.length = o.size := by
  induction o with
  | nil => rfl
  | cons tag body rest ihb ihr => simp [tags, size, ihb, ihr]; omega

/-- The first sibling, if it is a closing tag. -/
def leadingClose? : Outline → Option Tag
  | cons tag _ _ => if tag.isClosing then some tag else none
  | nil => none

/-! ## Numbering

Nodes are numbered in document order. The root, which is no tag, is node 0. -/

/-- A node with its neighbours, all named by number. -/
structure Node where
  id : Nat
  /-- `none` at the root. -/
  tag : Option Tag
  parent : Option Nat
  children : List Nat
  /-- The names of the enclosing sections, outermost first. -/
  ancestors : List String

/-- The numbers of the outermost tags when the first of them is numbered `first`. -/
def siblingIds (first : Nat) : Outline → List Nat
  | nil => []
  | cons _ body rest => first :: rest.siblingIds (first + 1 + body.size)

/-- The nodes of an outline inside the node `parent`, from number `first` on. -/
def nodesFrom (parent : Nat) (ancestors : List String) (first : Nat) : Outline → List Node
  | nil => []
  | cons tag body rest =>
    { id := first
      tag := some tag
      parent := some parent
      children := body.siblingIds (first + 1)
      ancestors } ::
    (body.nodesFrom first (ancestors ++ [tag.name]) (first + 1) ++
      rest.nodesFrom parent ancestors (first + 1 + body.size))

/-- All nodes by number, the root first. -/
def nodes (o : Outline) : List Node :=
  { id := 0, tag := none, parent := none, children := o.siblingIds 1, ancestors := [] } ::
    o.nodesFrom 0 [] 1

end Outline

namespace Outline.Node

def name (n : Node) : String := n.tag.elim "root" (·.name)

def position (n : Node) : Position := n.tag.elim .start (·.position)

def stop (n : Node) : Position := n.tag.elim .start (·.stop)

def width (n : Node) : Nat := n.tag.elim 0 (·.width)

def raw (n : Node) : Bool := n.tag.any (·.raw)

def opens (n : Node) : Bool := n.tag.any (·.opens)

/-- The word for the kind of a node. -/
def kind (n : Node) : String := n.tag.elim "root" (Tag.kindName ·.sigil)

end Outline.Node

end Stencil
