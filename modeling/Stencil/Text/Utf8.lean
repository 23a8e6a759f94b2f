/-!
Reading UTF-8. A byte sequence is decoded character by character; where that is
impossible, the fault says how many bytes before it are well formed and how many
bytes cannot be the start of a character, or that the text ends too early.
-/

namespace Stencil.Text.Utf8

/-- Why bytes are no UTF-8 text. -/
inductive Fault
  /-- `length` bytes from `start` on begin no character. -/
  | invalid (length start : Nat)
  /-- The text ends inside a character that begins at `start`. -/
  | incomplete (start : Nat)
  deriving DecidableEq

def Fault.message : Fault → String
  | invalid length start => s!"invalid utf-8 sequence of {length} bytes from index {start}"
  | incomplete start => s!"incomplete utf-8 byte sequence from index {start}"

/-- Whether a byte continues a character. -/
def isContinuation (b : UInt8) : Bool := 0x80 ≤ b && b ≤ 0xBF

/-- The number of bytes of the character that a byte begins; 0 if it begins none. -/
def lengthFrom (first : UInt8) : Nat :=
  if first < 0x80 then 1
  else if first < 0xC2 then 0
  else if first < 0xE0 then 2
  else if first < 0xF0 then 3
  else if first < 0xF5 then 4
  else 0

/-- Whether `second` can follow `first`. This leaves out longer spellings than
needed, surrogates, and numbers beyond the last character. -/
def secondFits (first second : UInt8) : Bool :=
  if first = 0xE0 then 0xA0 ≤ second && second ≤ 0xBF
  else if first = 0xED then 0x80 ≤ second && second ≤ 0x9F
  else if first = 0xF0 then 0x90 ≤ second && second ≤ 0xBF
  else if first = 0xF4 then 0x80 ≤ second && second ≤ 0x8F
  else isContinuation second

/-- The character written by a first byte, of which the remainder by `modulus`
counts, and by the bytes that continue it, which count six bits each. -/
def assemble (first : UInt8) (modulus : Nat) (more : List UInt8) : Char :=
  Char.ofNat (more.foldl (fun n b => n * 64 + b.toNat % 64) (first.toNat % modulus))

/-- The characters of a byte sequence that starts at offset `start`. -/
def decodeFrom (start : Nat) : List UInt8 → Except Fault (List Char)
  | [] => .ok []
  | a :: rest =>
    match lengthFrom a, rest with
    | 1, rest => return Char.ofNat a.toNat :: (← decodeFrom (start + 1) rest)
    | 0, _ => .error (.invalid 1 start)
    | _, [] => .error (.incomplete start)
    | n + 2, b :: rest =>
      if !secondFits a b then .error (.invalid 1 start)
      else
        match n, rest with
        | 0, rest => return assemble a 32 [b] :: (← decodeFrom (start + 2) rest)
        | _, [] => .error (.incomplete start)
        | n + 1, c :: rest =>
          if !isContinuation c then .error (.invalid 2 start)
          else
            match n, rest with
            | 0, rest => return assemble a 16 [b, c] :: (← decodeFrom (start + 3) rest)
            | _, [] => .error (.incomplete start)
            | _, d :: rest =>
              if !isContinuation d then .error (.invalid 3 start)
              else return assemble a 8 [b, c, d] :: (← decodeFrom (start + 4) rest)

/-- The text of a byte sequence. -/
def decode (bytes : List UInt8) : Except Fault String :=
  (decodeFrom 0 bytes).map String.ofList

/-- The bytes of a text. -/
def encode (text : String) : List UInt8 := text.toUTF8.toList

end Stencil.Text.Utf8
