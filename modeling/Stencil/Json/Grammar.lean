import Stencil.Json
import Stencil.Json.Reader
import Stencil.Text.Bytes
import Stencil.Text.Digits

/-!
Reading JSON. The parts of the grammar are readers of their own, so that a
reader of one particular document type can be put together from them.
`Json.parse` reads any document, nested at most 127 levels deep.
-/

namespace Stencil.Json

namespace Reader

/-! ## Words -/

/-- Takes the letters of a word, of which the first has been looked at. -/
def word : List Char → Reader Unit
  | [] => return
  | c :: cs => do
    if (← peek) = some c then
      advance
      word cs
    else refuse .expectedIdent .eofInValue

/-! ## Strings -/

/-- The value of a hexadecimal digit. -/
def hexDigit? (c : Char) : Option Nat :=
  if '0' ≤ c ∧ c ≤ '9' then some (c.toNat - '0'.toNat)
  else if 'a' ≤ c ∧ c ≤ 'f' then some (c.toNat - 'a'.toNat + 10)
  else if 'A' ≤ c ∧ c ≤ 'F' then some (c.toNat - 'A'.toNat + 10)
  else none

/-- The number written by hexadecimal digits. -/
def hexNumber? (cs : List Char) : Option Nat :=
  cs.foldlM (fun n c => (hexDigit? c).map (n * 16 + ·)) 0

/-- Takes the four digits of an escape. They are taken together, whatever they
are: a fault is placed behind all four bytes. -/
def fourHexDigits : Reader Nat := do
  let c ← get
  let behind := c.mark.pastBytes 4 c.rest
  if Text.byteLength (c.rest.take 4) < 4 then failAt behind .eofInString
  match (Text.takeBytes? 4 c.rest).bind hexNumber? with
  | none => failAt behind .invalidEscape
  | some n =>
    set { c with rest := c.rest.drop 4, mark := behind }
    return n

/-- Takes a character that must stand between the halves of a surrogate pair. -/
def pairLink (expected : Char) : Reader Unit := do
  if (← peek) = some expected then advance
  else refuse .unexpectedEndOfHexEscape .eofInString

def isLeadingSurrogate (n : Nat) : Bool := 0xD800 ≤ n && n ≤ 0xDBFF

def isTrailingSurrogate (n : Nat) : Bool := 0xDC00 ≤ n && n ≤ 0xDFFF

/-- The character of a `\u` escape, of which the `u` has been taken. A leading
surrogate needs a trailing one behind it, and the pair is one character. -/
def unicodeEscape : Reader Char := do
  let n ← fourHexDigits
  if isTrailingSurrogate n then fail .loneSurrogate
  else if isLeadingSurrogate n then
    pairLink '\\'
    pairLink 'u'
    let m ← fourHexDigits
    if isTrailingSurrogate m then
      return Char.ofNat (0x10000 + (n - 0xD800) * 0x400 + (m - 0xDC00))
    else fail .loneSurrogate
  else return Char.ofNat n

/-- The character that a letter stands for behind a backslash. -/
def simpleEscape? : Char → Option Char
  | '"' => some '"'
  | '\\' => some '\\'
  | '/' => some '/'
  | 'b' => some '\x08'
  | 'f' => some '\x0c'
  | 'n' => some '\n'
  | 'r' => some '\r'
  | 't' => some '\t'
  | _ => none

/-- The character of an escape, of which the backslash has been taken. -/
def escape : Reader Char := do
  match ← peek with
  | some 'u' =>
    advance
    unicodeEscape
  | c =>
    match c.bind simpleEscape? with
    | some x =>
      advance
      return x
    | none => refuse .invalidEscape .eofInString

/-- The next character of a string; `none` behind its closing quote. -/
def stringChar? : Reader (Option Char) := do
  match ← peek with
  | none => fail .eofInString
  | some '"' =>
    advance
    return none
  | some '\\' =>
    advance
    return some (← escape)
  | some c =>
    if c < ' ' then refuse .controlCharacter .eofInString
    advance
    return some c

/-- A string, from its opening quote. -/
def quotedString : Reader String := do
  advance
  return String.ofList (← many stringChar?)

/-! ## Numbers -/

/-- Takes one digit at least. -/
def someDigits : Reader (List Char) := do
  match ← takeWhile Char.isDigit with
  | [] => refuse .invalidNumber .eofInValue
  | digits => return digits

/-- The digits before the point, which do not begin with a zero. -/
def wholeDigits : Reader (List Char) := do
  match ← peek with
  | some '0' =>
    advance
    match ← peek with
    | some c => if c.isDigit then refuse .invalidNumber .eofInValue
    | none => pure ()
    return ['0']
  | _ => someDigits

/-- The digits behind the point, if there is one. -/
def fraction? : Reader (Option (List Char)) := do
  if (← peek) = some '.' then
    advance
    return some (← someDigits)
  else return none

/-- The largest exponent of a number that is not zero, which is the largest integer
of 32 bits. -/
def maxExponent : Nat := 2147483647

/-- The number of digits after which an exponent is too large. -/
def tooLargeAfter? (digits : List Char) : Option Nat :=
  (List.range (digits.length + 1)).find? fun n => maxExponent < Text.decimalNumber (digits.take n)

/-- The exponent, if there is one. An exponent that is too large is refused at
the digit that makes it so, unless it is negative or the number is zero. -/
def exponent? (isZero : Bool) : Reader (Option Int) := do
  match ← peek with
  | some 'e' | some 'E' =>
    advance
    let sign ← peek
    if sign = some '+' ∨ sign = some '-' then advance
    let before := (← get).mark
    let digits ← someDigits
    match tooLargeAfter? digits with
    | some n =>
      if sign ≠ some '-' ∧ ¬ isZero then
        failAt ⟨before.line, before.column + n⟩ .numberOutOfRange
    | none => pure ()
    let e : Int := min (Text.decimalNumber digits) maxExponent
    return some (if sign = some '-' then -e else e)
  | _ => return none

/-- Whether an integer fits into 64 bits, of which a negative one needs the first
for its sign. There is no integer minus zero. -/
def fitsInteger (negative : Bool) (n : Nat) : Bool :=
  if negative then 0 < n && n ≤ 9223372036854775808 else n < 18446744073709551616

/-- A number, from its first digit or its sign. -/
def number : Reader Number := do
  let negative := (← peek) = some '-'
  if negative then advance
  let whole ← wholeDigits
  let fraction ← fraction?
  let digits := Text.decimalNumber (whole ++ fraction.getD [])
  let exponent ← exponent? (digits = 0)
  if fraction.isNone && exponent.isNone && fitsInteger negative digits then
    return .integer (if negative then -digits else digits)
  let places := (fraction.getD []).length
  match Decimal.Double.ofDecimal? negative digits (exponent.getD 0 - places) with
  | some d => return .double d
  | none => fail .numberOutOfRange

/-! ## Lists and objects -/

/-- Takes the comma before the next item or the closing bracket, and says
whether an item follows. -/
def nextItem? : Reader Bool := do
  match ← peekToken with
  | some ']' =>
    advance
    return false
  | some ',' =>
    advance
    if (← peekToken) = some ']' then refuse .trailingComma .eofInValue
    return true
  | _ => refuse .expectedCommaOrBracket .eofInList

/-- The items of a list, from its opening bracket. -/
def items {α : Type} (item : Reader α) : Reader (List α) := do
  advance
  match ← peekToken with
  | none => fail .eofInList
  | some ']' =>
    advance
    return []
  | some _ =>
    let first ← item
    let others ← many do
      if ← nextItem? then return some (← item) else return none
    return first :: others

/-- The key of the first member, from the opening brace of an object; `none`
behind the closing brace of an empty one. -/
def firstKey? : Reader (Option String) := do
  advance
  match ← peekToken with
  | some '}' =>
    advance
    return none
  | some '"' => return some (← quotedString)
  | _ => refuse .keyMustBeString .eofInObject

/-- The key of the next member; `none` behind the closing brace. -/
def nextKey? : Reader (Option String) := do
  match ← peekToken with
  | some '}' =>
    advance
    return none
  | some ',' =>
    advance
    match ← peekToken with
    | some '"' => return some (← quotedString)
    | some '}' => refuse .trailingComma .eofInValue
    | _ => refuse .keyMustBeString .eofInValue
  | _ => refuse .expectedCommaOrBrace .eofInObject

/-- Takes the colon behind a key. -/
def colon : Reader Unit := do
  if (← peekToken) = some ':' then advance
  else refuse .expectedColon .eofInObject

/-- The members of an object, from its opening brace. A key that comes again
keeps its place and takes the new value. -/
def members {α : Type} (value : Reader α) : Reader (List (String × α)) := do
  match ← firstKey? with
  | none => return []
  | some key =>
    colon
    let first ← value
    untilNone (fun fields => do
      match ← nextKey? with
      | none => return none
      | some key =>
        colon
        return some (Fields.insert key (← value) fields)) [(key, first)]

/-! ## Documents -/

/-- A document whose brackets hold documents read by `nested`; `none` where no
further bracket may be opened. -/
def valueWith (nested : Option (Reader Json)) : Reader Json := do
  match ← peekToken with
  | some 'n' =>
    word ['n', 'u', 'l', 'l']
    return .null
  | some 't' =>
    word ['t', 'r', 'u', 'e']
    return .bool true
  | some 'f' =>
    word ['f', 'a', 'l', 's', 'e']
    return .bool false
  | some '"' => return .string (← quotedString)
  | some '[' =>
    match nested with
    | some inner => return .array (← items inner)
    | none => refuse .recursionLimit .eofInValue
  | some '{' =>
    match nested with
    | some inner => return .object (← members inner)
    | none => refuse .recursionLimit .eofInValue
  | some c =>
    if c = '-' ∨ c.isDigit then return .number (← number)
    else refuse .expectedValue .eofInValue
  | none => fail .eofInValue

/-- A document nested at most so many levels deep. -/
def value : Nat → Reader Json
  | 0 => valueWith none
  | depth + 1 => valueWith (some (value depth))

/-- The deepest nesting that is read. -/
def maxDepth : Nat := 127

end Reader

/-- The document of a whole text. -/
def parse (text : String) : Except Fault Json := Reader.readText (Reader.value Reader.maxDepth) text

end Stencil.Json
