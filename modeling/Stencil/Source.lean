import Stencil.Error

/-!
Sources of templates: where the text of a template comes from, and which
templates there are.
-/

namespace Stencil

/-- What a source answers at one moment. -/
structure Source where
  /-- The text of a template. -/
  load : String → Except Error String
  /-- The names of all templates that the source can tell of, which are only
looked for when they are asked for. -/
  list : Thunk (Except Error (List String)) := .pure (.ok [])

namespace Source

/-- The text that a table has for a name. -/
def lookUp (table : List (String × String)) (name : String) : Except Error String :=
  match Fields.get? name table with
  | some text => .ok text
  | none => .error (.template (.unknownName name))

/-- Names in the order of their code points. -/
def sortNames (names : List String) : List String := names.mergeSort fun a b => !(b < a)

/-- A table of texts by name. -/
def ofTable (table : List (String × String)) : Source :=
  { load := lookUp table
    list := .pure (.ok (sortNames (Fields.keys table))) }

/-- A table that does not tell which names it has. -/
def ofHiddenTable (table : List (String × String)) : Source :=
  { load := lookUp table }

end Source

end Stencil
