import Stencil.Json.Fault

/-!
Readers of JSON text: what takes characters from the front of a text, knows
where it stands, and answers with a value or a fault.

A reader has no way to go back. Repetition is bounded by the length of the text,
since every step that goes on takes at least one character.
-/

namespace Stencil.Json

/-- Where a reader stands in a text. -/
structure Cursor where
  /-- The text that is left. -/
  rest : List Char
  mark : Mark
  /-- More steps than there are characters in the whole text. -/
  bound : Nat

abbrev Reader := StateT Cursor (Except Fault)

namespace Reader

def start (text : String) : Cursor := ⟨text.toList, .start, text.toList.length + 1⟩

/-- The next character. -/
def peek : Reader (Option Char) := return (← get).rest.head?

/-- Takes the next character. -/
def advance : Reader Unit := modify fun c =>
  match c.rest with
  | [] => c
  | x :: xs => { c with rest := xs, mark := c.mark.past x }

/-- Takes the characters of a class from the front. -/
def takeWhile (p : Char → Bool) : Reader (List Char) := do
  let c ← get
  let taken := c.rest.takeWhile p
  set { c with rest := c.rest.dropWhile p, mark := taken.foldl Mark.past c.mark }
  return taken

/-- JSON's white space. -/
def isSpace (c : Char) : Bool := c = ' ' || c = '\n' || c = '\t' || c = '\r'

def skipSpace : Reader Unit := do
  let _ ← takeWhile isSpace

/-- Skips white space and looks at the next character. -/
def peekToken : Reader (Option Char) := do
  skipSpace
  peek

def failAt {α : Type} (mark : Mark) (cause : Cause) : Reader α := throw ⟨cause, mark⟩

/-- Fails where the reader stands. -/
def fail {α : Type} (cause : Cause) : Reader α := do failAt (← get).mark cause

/-- Refuses the next byte, which the place then counts; `atEnd` is the cause if
there is none. -/
def refuse {α : Type} (cause atEnd : Cause) : Reader α := do
  let c ← get
  match c.rest with
  | [] => failAt c.mark atEnd
  | x :: _ => failAt (c.mark.pastByte x) cause

/-- Repeats a step until it answers `none`, at most `bound` times. -/
def iterate {σ : Type} (step : σ → Reader (Option σ)) : Nat → σ → Reader σ
  | 0, s => return s
  | bound + 1, s => do
    match ← step s with
    | none => return s
    | some next => iterate step bound next

/-- Repeats a step until it answers `none`. -/
def untilNone {σ : Type} (step : σ → Reader (Option σ)) (s : σ) : Reader σ := do
  iterate step (← get).bound s

/-- The answers of a reader until it answers `none`. -/
def many {α : Type} (item : Reader (Option α)) : Reader (List α) := do
  let newestFirst ← untilNone (fun xs => return (← item).map (· :: xs)) []
  return newestFirst.reverse

/-- Reads on to the end of the text, where only white space may stand. -/
def toEnd {α : Type} (reader : Reader α) : Reader α := do
  let a ← reader
  match ← peekToken with
  | none => return a
  | some _ => refuse .trailingCharacters .trailingCharacters

/-- What a reader makes of a whole text. -/
def readText {α : Type} (reader : Reader α) (text : String) : Except Fault α :=
  (toEnd reader (start text)).map Prod.fst

end Reader

end Stencil.Json
