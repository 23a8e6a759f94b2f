import Stencil.Source

/-!
A directory of template files. A template's name is its path below the root,
with slashes between the parts. Names cannot lead out of the directory: those
that could are refused by their characters, and a path that does so by a symbolic
link is refused by the place it leads to.
-/

namespace Stencil

/-- The root of a directory of templates, as names from the top. None of them is
a link. -/
structure Directory where
  root : List String
  deriving DecidableEq

namespace Directory

/-- The directory at a path. -/
def openAt (files : FileTree) (path : String) : Except SourceError Directory :=
  match files.canonicalNames path with
  | .ok names => .ok ⟨names⟩
  | .error error => .error (.invalidRoot path error)

/-! ## Loading -/

/-- Whether a text holds two dots next to each other. -/
def hasDoubleDot : List Char → Bool
  | [] => false
  | '.' :: '.' :: _ => true
  | _ :: cs => hasDoubleDot cs

/-- Checks the characters of a name. -/
def checkName (name : String) : Except SourceError Unit :=
  let cs := name.toList
  if cs.isEmpty || cs.head? = some '/' then .error (.notRelative name)
  else if hasDoubleDot cs || cs.contains '\\' || cs.contains ':' then .error (.traversingName name)
  else .ok ()

/-- The path of a name below the root. -/
def pathOf (d : Directory) (name : String) : String :=
  ((FileTree.pathNames name).filter (· ≠ "")).foldl FileTree.joinPath
    (FileTree.absolutePath d.root)

/-- The text of the template with a name. -/
def load (files : FileTree) (d : Directory) (name : String) : Except Error String := do
  (checkName name).mapError .template
  let path := d.pathOf name
  if !files.isFile path then throw (.template (.noFile name path))
  let place ← (files.canonicalNames path).mapError fun error => .input (.file error)
  if !d.root.isPrefixOf place then throw (.template (.outsideRoot path))
  let bytes ← (files.read path).mapError fun error => .input (.file error)
  (Text.Utf8.decode bytes).mapError fun _ => .input .fileNotUtf8

/-! ## Listing

A link to a directory is entered like the directory itself. A path that leads
through too many links names no directory, nor does one that is too long, which
is what ends a listing where links run in a circle. -/

/-- The ending of template files, behind the last dot of the name. A name that
starts with its only dot has no ending. -/
def isTemplateName (name : String) : Bool :=
  match (Text.split '.' name.toList).reverse with
  | last :: stem :: others =>
    last = "mustache".toList && !(stem.isEmpty && others.isEmpty)
  | _ => false

/-- Whether a path below the root is short enough to be used. -/
def fits (d : Directory) (path : List String) : Bool :=
  FileTree.fits (FileTree.absolutePath (d.root ++ path))

/-- The templates of a directory that a link leads to, as paths that begin with
the path of the link; `none` if it does not lead to a directory. -/
abbrev FollowLink := FileTree.Trail → String → List String → Option (List (List String))

mutual

/-- The templates among the entries of a directory, as paths below the root that
begin with `path`, the one it was reached by. -/
def templatesIn (d : Directory) (follow : FollowLink) (trail : FileTree.Trail)
    (path : List String) : List (String × FileTree) → List (List String)
  | [] => []
  | (name, entry) :: entries =>
    d.templatesAt follow trail (path ++ [name]) name entry ++ d.templatesIn follow trail path entries
termination_by structural entries => entries

/-- The templates at an entry of the directory at the end of `trail`. An entry
that is no directory is a template by its name. -/
def templatesAt (d : Directory) (follow : FollowLink) (trail : FileTree.Trail)
    (path : List String) (name : String) : FileTree → List (List String)
  | .file _ => if isTemplateName name then [path] else []
  | .directory entries =>
    if d.fits path then d.templatesIn follow ((name, .directory entries) :: trail) path entries
    else if isTemplateName name then [path] else []
  | .link target =>
    match if d.fits path then follow trail target path else none with
    | some paths => paths
    | none => if isTemplateName name then [path] else []
termination_by structural entry => entry

end

/-- Follows a link where so many links may still be followed. Every link takes
one at least, so `depth` of them are enough for the recursion. -/
def followLink (files : FileTree) (d : Directory) : (depth links : Nat) → FollowLink
  | 0, _ => fun _ _ _ => none
  | _, 0 => fun _ _ _ => none
  | depth + 1, links + 1 => fun trail target path =>
    let start := if FileTree.isAbsolute target then [] else trail
    match files.walk links (FileTree.pathNames target) start with
    | .error _ => none
    | .ok arrival =>
      match arrival.trail.entry files with
      | .directory entries =>
        some (d.templatesIn (followLink files d depth arrival.linksLeft) arrival.trail path entries)
      | _ => none

/-- The names of all templates, sorted. -/
def list (files : FileTree) (d : Directory) : Except Error (List String) := do
  let failure (error : FileError) : Error := .input (.file error)
  let trail ← (files.locate (FileTree.absolutePath d.root)).mapError failure
  match trail.entry files with
  | .directory entries =>
    let links := FileTree.maxLinks
    let paths := d.templatesIn (followLink files d links links) trail [] entries
    return Source.sortNames (paths.map (String.intercalate "/"))
  | _ => throw (failure .notDirectory)

/-- The directory as a source, for the files as they are at one moment. -/
def source (files : FileTree) (d : Directory) : Source :=
  { load := d.load files
    list := .mk fun _ => d.list files }

end Directory

end Stencil
