import Stencil.Error
import Stencil.Json.Grammar
import Stencil.Json.Writer
import Stencil.Options

/-!
Options as JSON: an object of named fields, or a list of fields in their order.
Fields that are not given have their defaults. Fields are checked as they are
read, so the first fault of the text is the one reported.
-/

namespace Stencil

/-! ## Reading documents of one type -/

namespace Json.Reader

/-- How a number is described where it is not wanted. -/
def describeNumber : Number → String
  | .integer n => "integer " ++ Cause.quoted (toString n)
  | .double d => "floating point " ++ Cause.quoted (Number.double d).text

/-- Refuses the next document, which is not what is expected. A scalar is read
first, since it may be malformed; a bracket is left where it is. -/
def refuseType {α : Type} (expected : String) : Reader α := do
  match ← peekToken with
  | some 'n' =>
    word ['n', 'u', 'l', 'l']
    fail (.invalidType "null" expected)
  | some 't' =>
    word ['t', 'r', 'u', 'e']
    fail (.invalidType ("boolean " ++ Cause.quoted "true") expected)
  | some 'f' =>
    word ['f', 'a', 'l', 's', 'e']
    fail (.invalidType ("boolean " ++ Cause.quoted "false") expected)
  | some '"' =>
    let s ← quotedString
    fail (.invalidType ("string " ++ Text.quoted s) expected)
  | some '[' => fail (.invalidType "sequence" expected)
  | some '{' => fail (.invalidType "map" expected)
  | some c =>
    if c = '-' ∨ c.isDigit then
      let n ← number
      fail (.invalidType (describeNumber n) expected)
    else refuse .expectedValue .eofInValue
  | none => fail .eofInValue

def stringValue : Reader String := do
  match ← peekToken with
  | some '"' => quotedString
  | _ => refuseType "a string"

def boolValue : Reader Bool := do
  match ← peekToken with
  | some 't' =>
    word ['t', 'r', 'u', 'e']
    return true
  | some 'f' =>
    word ['f', 'a', 'l', 's', 'e']
    return false
  | _ => refuseType "a boolean"

/-- Refuses a key for what it is. The place of the fault is where the text goes on,
behind the brace if the object ends there. -/
def refuseKey {α : Type} (cause : Cause) : Reader α := do
  if (← peekToken) = some '}' then advance
  fail cause

/-- Takes the end of a list that can hold no further item. -/
def endOfItems : Reader Unit := do
  match ← peekToken with
  | some ']' => advance
  | some ',' =>
    advance
    if (← peekToken) = some ']' then refuse .trailingComma .trailingCharacters
    else refuse .trailingCharacters .trailingCharacters
  | _ => refuse .trailingCharacters .eofInList

end Json.Reader

namespace Options

open Json.Reader

inductive Field
  | placeholder
  | escapeHtml
  | lineNumbers
  | strict
  | learnSubject
  deriving DecidableEq

namespace Field

def all : List Field := [placeholder, escapeHtml, lineNumbers, strict, learnSubject]

def name : Field → String
  | placeholder => "placeholder"
  | escapeHtml => "escape_html"
  | lineNumbers => "line_numbers"
  | strict => "strict"
  | learnSubject => "learn_subject"

def ofName? (key : String) : Option Field := all.find? (·.name = key)

/-- Reads the value of a field into options. -/
def read (options : Options) : Field → Json.Reader Options
  | placeholder => return { options with placeholder := ← stringValue }
  | escapeHtml => return { options with escapeHtml := ← boolValue }
  | lineNumbers => return { options with lineNumbers := ← boolValue }
  | strict => return { options with strict := ← boolValue }
  | learnSubject => return { options with learnSubject := ← stringValue }

/-- The value of a field as JSON. -/
def json (options : Options) : Field → Json
  | placeholder => .string options.placeholder
  | escapeHtml => .bool options.escapeHtml
  | lineNumbers => .bool options.lineNumbers
  | strict => .bool options.strict
  | learnSubject => .string options.learnSubject

end Field

/-- The options read so far, and the fields they came from. -/
structure Progress where
  options : Options
  seen : List Field

/-- Reads the member whose key has been taken. -/
def readMember (soFar : Progress) (key : String) : Json.Reader Progress := do
  match Field.ofName? key with
  | none => refuseKey (.unknownField key (Field.all.map Field.name))
  | some field =>
    if field ∈ soFar.seen then refuseKey (.duplicateField key)
    colon
    return ⟨← field.read soFar.options, field :: soFar.seen⟩

/-- Options from an object, from its opening brace. -/
def readObject : Json.Reader Options := do
  match ← firstKey? with
  | none => return {}
  | some key =>
    let all ← untilNone (fun soFar => do
      match ← nextKey? with
      | none => return none
      | some key => return some (← readMember soFar key)) (← readMember ⟨{}, []⟩ key)
    return all.options

/-- The fields of a list behind its first item. -/
def readItems : List Field → Options → Json.Reader Options
  | [], options => do
    endOfItems
    return options
  | field :: fields, options => do
    if ← nextItem? then readItems fields (← field.read options) else return options

/-- Options from a list, from its opening bracket. -/
def readList : Json.Reader Options := do
  advance
  match ← peekToken with
  | none => fail .eofInList
  | some ']' =>
    advance
    return {}
  | some _ =>
    readItems [.escapeHtml, .lineNumbers, .strict, .learnSubject]
      (← Field.placeholder.read {})

def reader : Json.Reader Options := do
  match ← peekToken with
  | some '{' => readObject
  | some '[' => readList
  | _ => refuseType "struct RenderOptions"

/-- The options of a JSON text. -/
def ofText (text : String) : Except ConfigError Options :=
  (readText reader text).mapError .invalid

/-- The options of a JSON file. -/
def ofFile (files : FileTree) (path : String) : Except ConfigError Options := do
  match files.read path with
  | .error error => throw (.unreadable path (.file error))
  | .ok bytes =>
    match Text.Utf8.decode bytes with
    | .error _ => throw (.unreadable path .fileNotUtf8)
    | .ok text => ofText text

/-- The options as JSON, with every field. -/
def json (options : Options) : Json :=
  .object (Field.all.map fun field => (field.name, field.json options))

end Options

end Stencil
