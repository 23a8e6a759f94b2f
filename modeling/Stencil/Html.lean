/-!
Escaping text for HTML: the five characters with a meaning in markup become
entities.
-/

namespace Stencil.Html

/-- The entity of a character that has one. -/
def entity? : Char → Option String
  | '&' => some "&amp;"
  | '<' => some "&lt;"
  | '>' => some "&gt;"
  | '"' => some "&quot;"
  | '\'' => some "&#39;"
  | _ => none

/-- What a character is written as. -/
def escapeChar (c : Char) : List Char :=
  match entity? c with
  | some entity => entity.toList
  | none => [c]

def escapeChars (cs : List Char) : List Char := cs.flatMap escapeChar

/-- The characters that are looked for before anything is written anew. -/
def specialChars : List Char := ['&', '<', '>', '"', '\'']

/-- The escaped text. A text without special characters is itself. -/
def escape (text : String) : String :=
  if text.toList.any specialChars.contains then String.ofList (escapeChars text.toList) else text

end Stencil.Html
