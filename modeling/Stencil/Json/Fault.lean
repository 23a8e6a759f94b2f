/-!
What can be wrong with a JSON text, and where. A place counts the bytes taken so
far, from the last line end; most faults also count the byte that they are about.
-/

namespace Stencil.Json

/-- A place in a JSON text: a line, counted from one, and the number of its bytes
before the place. -/
structure Mark where
  line : Nat
  column : Nat
  deriving DecidableEq

namespace Mark

def start : Mark := ⟨1, 0⟩

/-- The place behind one byte of `c`. -/
def pastByte (m : Mark) (c : Char) : Mark :=
  if c = '\n' then ⟨m.line + 1, 0⟩ else ⟨m.line, m.column + 1⟩

/-- The place behind `c`. -/
def past (m : Mark) (c : Char) : Mark :=
  if c = '\n' then ⟨m.line + 1, 0⟩ else ⟨m.line, m.column + c.utf8Size⟩

/-- The place `n` bytes into a text, inside a character if need be. -/
def pastBytes (m : Mark) (n : Nat) : List Char → Mark
  | [] => m
  | c :: cs =>
    if n = 0 then m
    else if n < c.utf8Size then ⟨m.line, m.column + n⟩
    else (m.past c).pastBytes (n - c.utf8Size) cs

end Mark

/-- The faults. -/
inductive Cause
  | eofInValue
  | eofInList
  | eofInObject
  | eofInString
  | expectedValue
  /-- A word that begins like `null`, `true` or `false` goes on otherwise. -/
  | expectedIdent
  | expectedColon
  | expectedCommaOrBracket
  | expectedCommaOrBrace
  | keyMustBeString
  | trailingComma
  | trailingCharacters
  | invalidNumber
  | numberOutOfRange
  | invalidEscape
  | controlCharacter
  | unexpectedEndOfHexEscape
  | loneSurrogate
  | recursionLimit
  /-- The document is well formed but not of the type that is read. -/
  | invalidType (found expected : String)
  | unknownField (name : String) (known : List String)
  | duplicateField (name : String)
  deriving DecidableEq

namespace Cause

def quoted (name : String) : String := "`" ++ name ++ "`"

def message : Cause → String
  | eofInValue => "EOF while parsing a value"
  | eofInList => "EOF while parsing a list"
  | eofInObject => "EOF while parsing an object"
  | eofInString => "EOF while parsing a string"
  | expectedValue => "expected value"
  | expectedIdent => "expected ident"
  | expectedColon => "expected `:`"
  | expectedCommaOrBracket => "expected `,` or `]`"
  | expectedCommaOrBrace => "expected `,` or `\x7d`"
  | keyMustBeString => "key must be a string"
  | trailingComma => "trailing comma"
  | trailingCharacters => "trailing characters"
  | invalidNumber => "invalid number"
  | numberOutOfRange => "number out of range"
  | invalidEscape => "invalid escape"
  | controlCharacter => "control character (\\u0000-\\u001F) found while parsing a string"
  | unexpectedEndOfHexEscape => "unexpected end of hex escape"
  | loneSurrogate => "lone leading surrogate in hex escape"
  | recursionLimit => "recursion limit exceeded"
  | invalidType found expected => "invalid type: " ++ found ++ ", expected " ++ expected
  | unknownField name known =>
    "unknown field " ++ quoted name ++ ", expected one of " ++
      String.intercalate ", " (known.map quoted)
  | duplicateField name => "duplicate field " ++ quoted name

end Cause

/-- A fault and its place. -/
structure Fault where
  cause : Cause
  mark : Mark
  deriving DecidableEq

def Fault.message (f : Fault) : String :=
  s!"{f.cause.message} at line {f.mark.line} column {f.mark.column}"

end Stencil.Json
