import Stencil.Fields
import Stencil.Text.Bytes
import Stencil.Text.Split

/-!
Trees of files, directories and symbolic links, and how a path is followed in
them: name by name from the top, a link by its target, and at most forty links
in one path.

A `Trail` is a place that has been reached: the names from there back to the
top, each with what it names. No name on a trail is a link, so its names are the
canonical path of the place.
-/

namespace Stencil

inductive FileTree
  | file (content : List UInt8)
  | link (target : String)
  | directory (entries : List (String × FileTree))

/-- Why a path cannot be used. -/
inductive FileError
  | noEntry
  | notDirectory
  | isDirectory
  | tooManyLinks
  | nameTooLong
  | nulInPath
  deriving DecidableEq

def FileError.message : FileError → String
  | noEntry => "No such file or directory (os error 2)"
  | notDirectory => "Not a directory (os error 20)"
  | isDirectory => "Is a directory (os error 21)"
  | nameTooLong => "File name too long (os error 36)"
  | tooManyLinks => "Too many levels of symbolic links (os error 40)"
  | nulInPath => "file name contained an unexpected NUL byte"

namespace FileTree

/-! ## Following paths -/

/-- A place below the top, innermost name first. -/
abbrev Trail := List (String × FileTree)

/-- What stands at the end of a trail. -/
def Trail.entry (top : FileTree) : Trail → FileTree
  | [] => top
  | (_, entry) :: _ => entry

/-- The names from the top down. -/
def Trail.names (trail : Trail) : List String := (trail.map Prod.fst).reverse

/-- The names in a path. Empty names and `.` stay where they are, but only in a
directory. -/
def pathNames (path : String) : List String := Text.splitString '/' path

def isAbsolute (path : String) : Bool := path.toList.head? = some '/'

/-- The largest number of bytes in a name. -/
def maxNameLength : Nat := 255

/-- The largest number of bytes in a path. -/
def maxPathLength : Nat := 4095

/-- Whether a path is short enough to be used. Its bytes are counted as it is
written; what the targets of links add to it does not count. -/
def fits (path : String) : Bool := Text.byteLength path.toList ≤ maxPathLength

/-- A place that has been reached, and how many more links may be followed. -/
structure Arrival where
  trail : Trail
  linksLeft : Nat

/-- Follows names from a place. Links are left to `follow`, which is given the
place of the link, its target and the names behind it. -/
def walkNames (top : FileTree) (linksLeft : Nat)
    (follow : Trail → String → List String → Except FileError Arrival) :
    List String → Trail → Except FileError Arrival
  | [], trail => .ok ⟨trail, linksLeft⟩
  | name :: names, trail =>
    match trail.entry top with
    | .directory entries =>
      if name = "" ∨ name = "." then walkNames top linksLeft follow names trail
      else if name = ".." then walkNames top linksLeft follow names trail.tail
      else if maxNameLength < Text.byteLength name.toList then .error .nameTooLong
      else
        match Fields.get? name entries with
        | none => .error .noEntry
        | some (.link target) => follow trail target names
        | some entry => walkNames top linksLeft follow names ((name, entry) :: trail)
    | _ => .error .notDirectory

/-- Follows names from a place through at most so many links. The target of a
link is a path from the directory that holds the link, or from the top. -/
def walk (top : FileTree) : Nat → List String → Trail → Except FileError Arrival
  | 0 => walkNames top 0 fun _ _ _ => .error .tooManyLinks
  | links + 1 => walkNames top (links + 1) fun trail target names =>
    walk top links (pathNames target ++ names) (if isAbsolute target then [] else trail)

/-- The number of links that one path may lead through. -/
def maxLinks : Nat := 40

/-- Checks that a text can be a path: there is some of it, and no NUL byte. -/
def checkPath (path : String) : Except FileError Unit :=
  if path.toList.contains '\x00' then .error .nulInPath
  else if path = "" then .error .noEntry
  else .ok ()

/-- The place that a path from the top leads to. A path that is too long leads
nowhere, whatever its first names are. -/
def locate (top : FileTree) (path : String) : Except FileError Trail := do
  checkPath path
  if fits path then return (← top.walk maxLinks (pathNames path) []).trail
  else throw .nameTooLong

/-- Whether a path leads to a file. -/
def isFile (top : FileTree) (path : String) : Bool :=
  match top.locate path with
  | .ok trail => match trail.entry top with
    | .file _ => true
    | _ => false
  | .error _ => false

/-- The content of the file that a path leads to. -/
def read (top : FileTree) (path : String) : Except FileError (List UInt8) := do
  match (← top.locate path).entry top with
  | .file content => return content
  | _ => throw .isDirectory

/-- The path of names from the top. -/
def absolutePath (names : List String) : String := "/" ++ String.intercalate "/" names

/-- The canonical names of the place that a path leads to. The path is followed
name by name and may have any length; only the canonical path has to be short
enough. -/
def canonicalNames (top : FileTree) (path : String) : Except FileError (List String) := do
  checkPath path
  let names := (← top.walk maxLinks (pathNames path) []).trail.names
  if fits (absolutePath names) then return names else throw .nameTooLong

/-- A path with one more name. -/
def joinPath (path name : String) : String :=
  if path.toList.getLast? = some '/' then path ++ name else path ++ "/" ++ name

/-! ## Changing trees

Names here lead through directories only; a missing one is made. -/

def entries : FileTree → List (String × FileTree)
  | directory entries => entries
  | _ => []

/-- The entry at a place. -/
def entryAt? (tree : FileTree) : List String → Option FileTree
  | [] => some tree
  | name :: names => (Fields.get? name tree.entries).bind (·.entryAt? names)

/-- Puts a tree at a place. -/
def put (tree : FileTree) (names : List String) (new : FileTree) : FileTree :=
  match names with
  | [] => new
  | name :: names =>
    .directory (Fields.alter name (fun old => (old.getD (.directory [])).put names new)
      tree.entries)

/-- Makes a directory at a place, unless something stands there. -/
def makeDirectory (tree : FileTree) (names : List String) : FileTree :=
  match names with
  | [] => tree
  | name :: names =>
    .directory (Fields.alter name (fun old => (old.getD (.directory [])).makeDirectory names)
      tree.entries)

/-- Removes the entry at a place. -/
def remove (tree : FileTree) (names : List String) : FileTree :=
  match names with
  | [] => tree
  | [name] => .directory (Fields.erase name tree.entries)
  | name :: names =>
    match Fields.get? name tree.entries with
    | none => tree
    | some below => .directory (Fields.insert name (below.remove names) tree.entries)

/-- The place that names lead to, which need not exist: they are followed as far
as they lead somewhere, and taken as they are behind that. -/
def followed (top : FileTree) (names : List String) : List String :=
  let after (count : Nat) : Option (List String) :=
    match top.walk maxLinks (names.take count) [] with
    | .ok arrival => some (arrival.trail.names ++ names.drop count)
    | .error _ => none
  ((List.range (names.length + 1)).reverse.findSome? after).getD names

/-- The names of a path that stand for an entry or for the directory above. -/
def properNames (path : String) : List String :=
  (pathNames path).filter fun name => name ≠ "" ∧ name ≠ "."

/-- The place that a link at `place` leads to, through so many links at most.
Nothing need stand there: that is where a file written to the link is made. -/
def throughLinks (top : FileTree) : (links : Nat) → (place : List String) → List String
  | 0, place => place
  | links + 1, place =>
    match top.entryAt? place with
    | some (.link target) =>
      let start := if isAbsolute target then [] else place.dropLast
      top.throughLinks links (top.followed (start ++ properNames target))
    | _ => place

/-- The place whose content a path stands for. -/
def contentPlace (top : FileTree) (path : String) : List String :=
  top.throughLinks maxLinks (top.followed (properNames path))

/-- The place of the entry that a path names: a link there is not followed. -/
def entryPlace (top : FileTree) (path : String) : List String :=
  top.followed (properNames path).dropLast ++ (properNames path).getLast?.toList

end FileTree

end Stencil
