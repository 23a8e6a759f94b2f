import Stencil.Json

/-!
Writing JSON without white space. A string escapes quotes, backslashes and
control characters, and nothing else.
-/

namespace Stencil.Json

namespace Writer

def hexDigit (n : Nat) : Char := if n < 10 then Char.ofNat (48 + n) else Char.ofNat (87 + n)

/-- The characters that stand for `c` inside a string. -/
def escapeChar (c : Char) : List Char :=
  match c with
  | '"' => ['\\', '"']
  | '\\' => ['\\', '\\']
  | '\x08' => ['\\', 'b']
  | '\x0c' => ['\\', 'f']
  | '\n' => ['\\', 'n']
  | '\r' => ['\\', 'r']
  | '\t' => ['\\', 't']
  | c =>
    if c < ' ' then ['\\', 'u', '0', '0', hexDigit (c.toNat / 16), hexDigit (c.toNat % 16)]
    else [c]

def writeString (s : String) : String :=
  String.ofList ('"' :: (s.toList.flatMap escapeChar ++ ['"']))

def bracketed (opening closing : String) (parts : List String) : String :=
  opening ++ String.intercalate "," parts ++ closing

end Writer

open Writer

mutual

/-- The text of a document. -/
def write : Json → String
  | .null => "null"
  | .bool b => if b then "true" else "false"
  | .number n => n.text
  | .string s => writeString s
  | .array items => bracketed "[" "]" (writeItems items)
  | .object members => bracketed "\x7b" "\x7d" (writeMembers members)
termination_by structural json => json

def writeItems : List Json → List String
  | [] => []
  | item :: items => write item :: writeItems items
termination_by structural items => items

def writeMembers : List (String × Json) → List String
  | [] => []
  | (key, value) :: members =>
    (writeString key ++ ":" ++ write value) :: writeMembers members
termination_by structural members => members

end

end Stencil.Json
