import Stencil.Store
import Stencil.Text.Affix

/-!
Looking a name up inside sections. A name is tried below the full scope first
and then below shorter and shorter prefixes of it, so an inner name shadows an
outer one. A prefix keeps or loses a key together with the indices behind it, so
inside a repeated section a name means the current item.
-/

namespace Stencil

/-- What a name stands for. -/
inductive Resolution
  /-- The store has a value there. -/
  | found (path : Path) (value : Value)
  /-- The name asks for the text of a path. -/
  | pathText (path : Path)

namespace Resolution

def path : Resolution → Path
  | found path _ => path
  | pathText path => path

/-- How often a section with this name is shown. -/
def passCount : Resolution → Nat
  | found _ value => value.passCount
  | pathText path => (Value.scalar path.text).passCount

end Resolution

/-- A name that means nothing in its scope. -/
structure NotFound where
  name : String
  scope : String
  deriving DecidableEq

def NotFound.message (e : NotFound) : String := s!"'{e.name}' not found under '{e.scope}'"

namespace Store

/-- The end of a name that asks for the text of a path. -/
def pathSuffix : List Char := ['_', 'p', 'a', 't', 'h']

/-- The path that a local name asks for the text of, if its last step is a key
with that end. A key that is nothing else is dropped. -/
def withoutPathSuffix? (name : Path) : Option Path :=
  match name.getLast? with
  | some (.key last) =>
    (Text.dropSuffix? pathSuffix last.toList).map fun front =>
      name.dropLast ++ if front.isEmpty then [] else [.key (String.ofList front)]
  | _ => none

/-- The value of a local name below the first `length` steps of a scope. -/
def lookUp? (s : Store) (scope : Path) (name : Path) (length : Nat) : Option Resolution :=
  let candidate := scope.prefixJoin length name
  (s.get? candidate).map (.found candidate)

/-- Looks a name up inside the sections at `scope`. -/
def resolve (s : Store) (scope : Path) (name : String) : Except NotFound Resolution :=
  let steps := Path.parse name
  match (scope.cutLengths scope.length).findSome? (s.lookUp? scope steps) with
  | some resolution => .ok resolution
  | none =>
    match withoutPathSuffix? steps with
    | some rest => .ok (.pathText (scope ++ rest))
    | none => .error ⟨name, scope.text⟩

end Store

end Stencil
