import Stencil.FileTree
import Stencil.Json.Fault
import Stencil.Store
import Stencil.Template
import Stencil.Text.Quoted
import Stencil.Text.Utf8

/-!
What can go wrong around a page. Rendering itself never fails: the errors come
from templates, data, options and files.
-/

namespace Stencil

/-- Why a text or a file cannot be used. -/
inductive InputError
  | file (error : FileError)
  /-- A file does not hold UTF-8. -/
  | fileNotUtf8
  /-- A caller passes bytes that are not UTF-8. -/
  | notUtf8 (fault : Text.Utf8.Fault)
  /-- A caller passes nothing where a text is needed. -/
  | missingText
  /-- A text that is to end at a NUL byte holds one itself. -/
  | nulByte (position : Nat)
  deriving DecidableEq

def InputError.message : InputError → String
  | file error => error.message
  | fileNotUtf8 => "stream did not contain valid UTF-8"
  | notUtf8 fault => fault.message
  | missingText => "null string pointer"
  | nulByte position => s!"nul byte found in provided data at position: {position}"

/-- Why a source has no template under a name. -/
inductive SourceError
  | unknownName (name : String)
  | invalidRoot (path : String) (error : FileError)
  /-- The name is empty or starts at the top of all paths. -/
  | notRelative (name : String)
  /-- The name holds characters that could lead out of the directory. -/
  | traversingName (name : String)
  | noFile (name path : String)
  /-- The path leads out of the directory by a link. -/
  | outsideRoot (path : String)
  deriving DecidableEq

def SourceError.message : SourceError → String
  | unknownName name => s!"Template not found: {name}"
  | invalidRoot path error => s!"Invalid template root {path}: {error.message}"
  | notRelative name => s!"Template name must be a relative path: {Text.quoted name}"
  | traversingName name => s!"Invalid template name (path traversal): {name}"
  | noFile name path => s!"Template file not found: {name} ({path})"
  | outsideRoot path => s!"Path traversal detected: {path}"

/-- Why options cannot be used. -/
inductive ConfigError
  | invalid (fault : Json.Fault)
  | unreadable (path : String) (error : InputError)
  deriving DecidableEq

def ConfigError.message : ConfigError → String
  | invalid fault => s!"Invalid render options: {fault.message}"
  | unreadable path error => s!"Failed to read {path}: {error.message}"

/-- All errors. -/
inductive Error
  | parse (error : ParseError)
  | data (error : DataError)
  | template (error : SourceError)
  | config (error : ConfigError)
  | json (fault : Json.Fault)
  | input (error : InputError)
  deriving DecidableEq

namespace Error

def message : Error → String
  | parse error => s!"Parse error: {error.message}"
  | data error => s!"Data error: {error.message}"
  | template error => s!"Template error: {error.message}"
  | config error => s!"Config error: {error.message}"
  | json fault => s!"JSON error: {fault.message}"
  | input error => s!"IO error: {error.message}"

/-- The word for the kind of an error in reports. -/
def kindName : Error → String
  | parse _ => "ParseError"
  | data _ => "DataError"
  | template _ => "TemplateError"
  | config _ => "ConfigError"
  | json _ => "JsonError"
  | input _ => "IoError"

end Error

end Stencil
