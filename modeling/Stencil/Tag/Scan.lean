import Stencil.Name
import Stencil.Tag
import Stencil.Text.Space
import Stencil.Text.Split

/-!
Finding the tags of a text. A tag is `{{`, an optional third `{`, an optional
sigil, a name of letters, digits, `_` and `.`, an optional `}` and `}}`; it lies
on one line. Everything else, unmatched braces included, is literal text.

Each choice in that form is settled by the next character, so `leadingTag?`
reads the longest tag at the head of a text without looking back.
-/

namespace Stencil

/-- One character in front of a text, if it is of the given class. -/
def splitOptional (p : Char → Bool) : List Char → List Char × List Char
  | [] => ([], [])
  | c :: cs => if p c then ([c], cs) else ([], c :: cs)

theorem splitOptional_append (p : Char → Bool) (cs : List Char) :
    (splitOptional p cs).1 ++ (splitOptional p cs).2 = cs := by
  cases cs with
  | nil => rfl
  | cons c cs => by_cases h : p c <;> simp [splitOptional, h]

/-- The closing braces in front of a text, three where there are three. -/
def closingBraces? : List Char → Option (List Char × List Char)
  | '}' :: '}' :: '}' :: rest => some (['}', '}', '}'], rest)
  | '}' :: '}' :: rest => some (['}', '}'], rest)
  | _ => none

theorem closingBraces?_append {cs braces rest : List Char}
    (h : closingBraces? cs = some (braces, rest)) : braces ++ rest = cs := by
  unfold closingBraces? at h
  split at h <;> cases h <;> rfl

/-- The part of a tag behind its opening braces, and what follows the tag. -/
def tagBody? (cs : List Char) : Option (List Char × List Char) :=
  let (brace, cs) := splitOptional (· = '{') cs
  let (sigil, cs) := splitOptional (fun c => (Sigil.ofChar? c).isSome) cs
  let name := cs.takeWhile isNameChar
  if name.isEmpty then none
  else (closingBraces? (cs.dropWhile isNameChar)).map fun (braces, rest) =>
    (brace ++ sigil ++ name ++ braces, rest)

theorem tagBody?_append {cs body rest : List Char} (h : tagBody? cs = some (body, rest)) :
    body ++ rest = cs := by
  simp only [tagBody?] at h
  split at h
  · cases h
  · obtain ⟨⟨braces, tail⟩, hb, heq⟩ := Option.map_eq_some_iff.1 h
    cases heq
    have hbraces := closingBraces?_append hb
    rw [List.append_assoc, hbraces, List.append_assoc, List.takeWhile_append_dropWhile,
      List.append_assoc, splitOptional_append, splitOptional_append]

/-- The tag at the head of a text, if there is one, and what follows it. -/
def leadingTag? : List Char → Option (List Char × List Char)
  | '{' :: '{' :: cs => (tagBody? cs).map fun (body, rest) => ('{' :: '{' :: body, rest)
  | _ => none

theorem leadingTag?_append {cs word rest : List Char} (h : leadingTag? cs = some (word, rest)) :
    word ++ rest = cs := by
  unfold leadingTag? at h
  split at h
  · obtain ⟨⟨body, tail⟩, hb, heq⟩ := Option.map_eq_some_iff.1 h
    cases heq
    simp [tagBody?_append hb]
  · cases h

theorem leadingTag?_length {cs word rest : List Char} (h : leadingTag? cs = some (word, rest)) :
    rest.length < cs.length := by
  unfold leadingTag? at h
  split at h
  · obtain ⟨⟨body, tail⟩, hb, heq⟩ := Option.map_eq_some_iff.1 h
    cases heq
    have := congrArg List.length (tagBody?_append hb)
    simp only [List.length_append, List.length_cons] at this ⊢
    omega
  · cases h

/-- The tags of a text from left to right, the next one looked for behind the
last. The text starts at `column` of line `line`. -/
def tagsFrom (line column : Nat) (cs : List Char) : List RawTag :=
  match _h : leadingTag? cs with
  | some (word, rest) =>
    ⟨⟨line, column⟩, String.ofList word⟩ :: tagsFrom line (column + Text.byteLength word) rest
  | none =>
    match cs with
    | [] => []
    | c :: rest => tagsFrom line (column + c.utf8Size) rest
termination_by cs.length
decreasing_by
  · exact leadingTag?_length ‹_›
  · simp

/-- The tags of one line. -/
def scanLine (line : Nat) (cs : List Char) : List RawTag := tagsFrom line 0 cs

/-- The tags of a whole text, line by line. Blank lines are left out. -/
def scan (source : String) : List RawTag :=
  ((Text.lines source.toList).zipIdx.filter fun (cs, _) => !Text.isBlank cs).flatMap
    fun (cs, line) => scanLine line cs

end Stencil
