import Mathlib.Data.List.TakeWhile
import Stencil.Proofs.Spelling
import Stencil.Template

/-!
The lines of a source, by its characters and by its bytes.

A scan goes along the lines between the line ends and leaves out the blank ones; a template finds
its lines by the bytes that end one. Neither makes a difference to a render.

* `scan_eq_flatMap`: there is no tag on a blank line, so a scan finds the tags of all lines.
* `Text.map_slice?_lineRanges`: the ranges of bytes cut out the lines between the line ends.
-/

namespace Stencil

/-! ## Blank lines -/

namespace Text

/-- A text is blank if all of it is white space. -/
theorem isBlank_iff {cs : List Char} : isBlank cs = true ↔ ∀ c ∈ cs, isSpace c = true := by
  rw [isBlank, List.isEmpty_iff, trim, List.reverse_eq_nil_iff, List.dropWhile_eq_nil_iff]
  constructor
  · intro trimmed c member
    rw [← List.takeWhile_append_dropWhile (p := isSpace) (l := cs)] at member
    rcases List.mem_append.1 member with front | back
    · exact List.mem_takeWhile_imp front
    · exact trimmed c (List.mem_reverse.2 back)
  · intro space c member
    exact space c ((List.dropWhile_sublist isSpace).mem (List.mem_reverse.1 member))

end Text

/-- A tag begins with a brace, which is no white space. -/
theorem leadingTag?_eq_none_of_isSpace {c : Char} (space : Text.isSpace c = true)
    (rest : List Char) : leadingTag? (c :: rest) = none := by
  unfold leadingTag?
  split
  · case h_1 same =>
    cases same
    exact absurd space (by decide)
  · rfl

theorem tagsFrom_of_isBlank (line column : Nat) {cs : List Char} (blank : Text.isBlank cs = true) :
    tagsFrom line column cs = [] := by
  rw [Text.isBlank_iff] at blank
  fun_induction tagsFrom line column cs with
  | case1 column cs word rest read ih =>
    cases cs with
    | nil => cases read
    | cons c cs =>
      rw [leadingTag?_eq_none_of_isSpace (blank c List.mem_cons_self)] at read
      cases read
  | case2 => rfl
  | case3 column c rest absent ih =>
    exact ih fun later member => blank later (List.mem_cons_of_mem c member)

/-- A scan finds the tags of all lines. -/
theorem scan_eq_flatMap (source : String) :
    scan source =
      (Text.lines source.toList).zipIdx.flatMap fun (cs, line) => scanLine line cs := by
  rw [scan]
  induction (Text.lines source.toList).zipIdx with
  | nil => rfl
  | cons numbered later ih =>
    obtain ⟨cs, line⟩ := numbered
    cases blank : Text.isBlank cs with
    | true =>
      have absent : scanLine line cs = [] := tagsFrom_of_isBlank line 0 blank
      rw [List.filter_cons_of_neg (by simp [blank]), ih, List.flatMap_cons]
      exact (congrArg (· ++ _) absent).symm
    | false => rw [List.filter_cons_of_pos (by simp [blank]), List.flatMap_cons, ih, List.flatMap_cons]

/-! ## Ranges of bytes -/

namespace Text

/-- Bytes of which none ends a line all belong to the line they stand on. -/
theorem rangesFrom_append {bytes : List UInt8} (flat : lineEndByte ∉ bytes) (start offset : Nat)
    (more : List UInt8) :
    rangesFrom start offset (bytes ++ more) = rangesFrom start (offset + bytes.length) more := by
  induction bytes generalizing offset with
  | nil => rfl
  | cons b bytes ih =>
    obtain ⟨other, flat⟩ := not_or.1 (mt List.mem_cons.2 flat)
    rw [List.cons_append, rangesFrom, if_neg (Ne.symm other), ih flat, List.length_cons,
      Nat.add_assoc, Nat.add_comm 1]

/-- The bytes of a character of several bytes are all beyond those of one byte. -/
theorem toNat_of_mem_written {n : Nat} {b : UInt8} (member : b ∈ Utf8.written n) :
    b.toNat = n ∨ 0x80 ≤ b.toNat := by
  unfold Utf8.written at member
  split at member
  case isTrue oneByte =>
    rw [List.mem_singleton.1 member, UInt8.toNat_ofNat']
    omega
  -- Each of several bytes has its first bit set.
  have high {k : Nat} (bit : 0x80 ≤ k % 256) (same : b = .ofNat k) : 0x80 ≤ b.toNat := by
    rwa [same, UInt8.toNat_ofNat']
  right
  split at member
  · simp only [List.mem_cons, List.not_mem_nil, or_false] at member
    rcases member with byte | byte <;> exact high (by omega) byte
  split at member
  · simp only [List.mem_cons, List.not_mem_nil, or_false] at member
    rcases member with byte | byte | byte <;> exact high (by omega) byte
  · simp only [List.mem_cons, List.not_mem_nil, or_false] at member
    rcases member with byte | byte | byte | byte <;> exact high (by omega) byte

/-- No byte of another character looks like a line end. -/
theorem lineEndByte_notMem_utf8EncodeChar {c : Char} (other : c ≠ '\n') :
    lineEndByte ∉ String.utf8EncodeChar c := by
  intro member
  rcases toNat_of_mem_written (n := c.toNat) member with same | high
  · exact other (Char.toNat_inj.1 same.symm)
  · exact absurd high (by decide)

/-- A range from one cut of a text to another has the text between them. -/
theorem ByteRange.slice?_eq {cs done begun rest : List Char} {start stop : Nat}
    (cut : cs = done ++ (begun ++ rest)) (first : byteLength done = start)
    (last : start + byteLength begun = stop) : (ByteRange.mk start stop).slice? cs = some begun := by
  rw [cut, ← last, ← first]
  exact slice?_append done begun rest

theorem modifyHead_nil_append (lines : List (List Char)) : lines.modifyHead ([] ++ ·) = lines := by
  cases lines <;> rfl

/-- The ranges of a text, when `done` has been passed and the line that goes on has `begun`. -/
theorem map_slice?_rangesFrom {cs done begun rest : List Char} {start offset : Nat}
    (cut : cs = done ++ (begun ++ rest)) (first : byteLength done = start)
    (last : start + byteLength begun = offset) :
    (rangesFrom start offset (rest.flatMap String.utf8EncodeChar)).map (·.slice? cs) =
      ((lines rest).modifyHead (begun ++ ·)).map some := by
  induction rest generalizing done begun start offset with
  | nil => simp [rangesFrom, ByteRange.slice?_eq cut first last, lines, split]
  | cons c rest ih =>
    rw [List.flatMap_cons]
    by_cases ends : c = '\n'
    · subst ends
      have encoded : String.utf8EncodeChar '\n' = [lineEndByte] := by decide
      have cutBehind : cs = (done ++ (begun ++ ['\n'])) ++ ([] ++ rest) := by simpa using cut
      have width : byteLength (done ++ (begun ++ ['\n'])) = offset + 1 := by
        rw [byteLength_append, byteLength_append, first, ← Nat.add_assoc, last]
        rfl
      have empty : offset + 1 + byteLength [] = offset + 1 := rfl
      have later := ih cutBehind width empty
      rw [modifyHead_nil_append] at later
      rw [encoded, List.singleton_append, rangesFrom, if_pos rfl, List.map_cons,
        ByteRange.slice?_eq cut first last, later, lines_cons_lineEnd, List.modifyHead_cons,
        List.append_nil, List.map_cons]
    · have flat := lineEndByte_notMem_utf8EncodeChar ends
      have cutBehind : cs = done ++ ((begun ++ [c]) ++ rest) := by simpa using cut
      have width : start + byteLength (begun ++ [c]) = offset + c.utf8Size := by
        rw [byteLength_append, ← Nat.add_assoc, last]
        rfl
      have later := ih cutBehind first width
      rw [rangesFrom_append flat, String.length_utf8EncodeChar, later, lines_cons_of_ne ends,
        List.modifyHead_modifyHead]
      simp [Function.comp_def]

/-- The ranges of bytes cut out the lines between the line ends. -/
theorem map_slice?_lineRanges (source : String) :
    (lineRanges source).map (·.slice? source.toList) = (lines source.toList).map some := by
  have cut : source.toList = [] ++ ([] ++ source.toList) := rfl
  have whole := map_slice?_rangesFrom cut rfl rfl
  rwa [← Utf8.encode_eq_flatMap, modifyHead_nil_append] at whole

end Text

namespace Template

/-- A line of a parsed template is a line of its source. -/
theorem line?_parse (source : String) (index : Nat) :
    (parse source).line? index = (Text.lines source.toList)[index]? := by
  have cut := congrArg (·[index]?.bind id) (Text.map_slice?_lineRanges source)
  simp only [List.getElem?_map, Option.bind_map] at cut
  exact cut.trans (Option.bind_fun_some _)

theorem lineCount_eq_length_lines (source : String) :
    (parse source).lineCount = (Text.lines source.toList).length := by
  have lengths := congrArg List.length (Text.map_slice?_lineRanges source)
  rwa [List.length_map, List.length_map] at lengths

end Template

end Stencil
