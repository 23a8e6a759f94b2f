import Stencil.Outline

/-!
What can be wrong with the sections of a template. An outline exists for any
tags; a diagnostic says where the closing tags do not match the sections.
-/

namespace Stencil

/-- The kinds of structural problem. -/
inductive Problem
  /-- A section is closed by a tag of another name. -/
  | mismatchedClose (opened closed : String)
  /-- A section runs to the end of what encloses it. -/
  | unclosed (name : String)
  /-- A closing tag stands where no section ends. -/
  | strayClose (name : String)
  deriving DecidableEq

def Problem.message : Problem → String
  | mismatchedClose opened closed =>
    "'\x7b\x7b/" ++ closed ++ "\x7d\x7d' closes section '" ++ opened ++ "'"
  | unclosed name => "section '" ++ name ++ "' is never closed"
  | strayClose name => "'\x7b\x7b/" ++ name ++ "\x7d\x7d' has no open section"

/-- A problem and the place of the tag it is reported at. -/
structure Diagnostic where
  problem : Problem
  position : Position
  deriving DecidableEq

def Diagnostic.message (d : Diagnostic) : String :=
  d.problem.message ++ " at " ++ d.position.describe

namespace Outline

/-- What is wrong at a section, given its next sibling if that closes it. -/
def sectionProblem? (tag : Tag) : Option Tag → Option Diagnostic
  | some close =>
    if close.name = tag.name then none
    else some ⟨.mismatchedClose tag.name close.name, close.position⟩
  | none => some ⟨.unclosed tag.name, tag.position⟩

/-- The problems among the outermost tags, where `afterSection` says whether a
section stands right before the first. -/
def levelProblems (afterSection : Bool) : Outline → List Diagnostic
  | nil => []
  | cons tag _ rest =>
    let own :=
      if tag.opens then (sectionProblem? tag rest.leadingClose?).toList
      else if tag.isClosing && !afterSection then [⟨.strayClose tag.name, tag.position⟩]
      else []
    own ++ rest.levelProblems tag.opens

/-- The problems inside the bodies of the outermost tags. -/
def bodyProblems : Outline → List Diagnostic
  | nil => []
  | cons _ body rest =>
    body.levelProblems false ++ body.bodyProblems ++ rest.bodyProblems

/-- All problems in document order. -/
def diagnostics (o : Outline) : List Diagnostic :=
  (o.levelProblems false ++ o.bodyProblems).mergeSort fun a b => a.position ≤ b.position

end Outline

end Stencil
