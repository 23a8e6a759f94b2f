import Stencil.Proofs.Dotted
import Stencil.Render

/-!
The output of a render, character by character.

Pieces can be cut in many ways without a reader seeing it: a text may be empty,
or come in two parts. `glyphs` forgets the cuts and keeps what is shown, each
copied line end with the number of the source line behind it.

* `toList_text_ofPieces`: without line numbers, the text of an output is what
  its glyphs show.
* `mem_toList_text`: whatever the options, a character of the text is shown by
  a glyph, ends a line, or belongs to a line number.
-/

namespace Stencil

/-- One character of output. -/
inductive Glyph
  | char (c : Char)
  /-- A copied line end, with the number of the source line behind it. -/
  | lineEnd (sourceLine : Nat)
  deriving DecidableEq

/-- The character that a reader sees. -/
def Glyph.shown : Glyph → Char
  | char c => c
  | lineEnd _ => '\n'

def Piece.glyphs : Piece → List Glyph
  | text content => content.toList.map .char
  | newLine next => [.lineEnd next]

/-- The output of a sequence of pieces. -/
def glyphs (pieces : List Piece) : List Glyph := pieces.flatMap Piece.glyphs

@[simp]
theorem glyphs_nil : glyphs [] = [] := rfl

@[simp]
theorem glyphs_text_cons (content : String) (pieces : List Piece) :
    glyphs (.text content :: pieces) = content.toList.map .char ++ glyphs pieces := rfl

@[simp]
theorem glyphs_newLine_cons (next : Nat) (pieces : List Piece) :
    glyphs (.newLine next :: pieces) = .lineEnd next :: glyphs pieces := rfl

@[simp]
theorem glyphs_append (front back : List Piece) :
    glyphs (front ++ back) = glyphs front ++ glyphs back := by
  simp [glyphs]

@[simp]
theorem glyphs_flatMap {α : Type} (xs : List α) (f : α → List Piece) :
    glyphs (xs.flatMap f) = xs.flatMap fun x => glyphs (f x) := by
  simp [glyphs, List.flatMap_assoc]

theorem map_shown_char (cs : List Char) : (cs.map Glyph.char).map Glyph.shown = cs := by
  rw [List.map_map]
  exact List.map_id cs

/-! ## The text of an output -/

theorem OutputLine.ofPieces_ne_nil (sourceLine : Nat) (text : String) (pieces : List Piece) :
    OutputLine.ofPieces sourceLine text pieces ≠ [] := by
  induction pieces generalizing text with
  | nil => simp [OutputLine.ofPieces]
  | cons piece pieces ih =>
    cases piece with
    | text content => exact ih (text ++ content)
    | newLine next => simp [OutputLine.ofPieces]

/-- The lines of an output, joined again, are the text that the first line has
already and what the glyphs show. -/
theorem OutputLine.toList_intercalate_ofPieces (sourceLine : Nat) (text : String)
    (pieces : List Piece) :
    (String.intercalate "\n"
        ((OutputLine.ofPieces sourceLine text pieces).map OutputLine.text)).toList =
      text.toList ++ (glyphs pieces).map Glyph.shown := by
  induction pieces generalizing sourceLine text with
  | nil => simp [OutputLine.ofPieces]
  | cons piece pieces ih =>
    cases piece with
    | text content =>
      rw [OutputLine.ofPieces, ih, glyphs_text_cons, List.map_append, map_shown_char]
      simp
    | newLine next =>
      have more : (OutputLine.ofPieces next "" pieces).map OutputLine.text ≠ [] := by
        simpa using OutputLine.ofPieces_ne_nil next "" pieces
      rw [OutputLine.ofPieces, List.map_cons, String.intercalate_cons_of_ne_nil more,
        String.toList_append, String.toList_append, ih]
      simp [Glyph.shown]

/-- Without line numbers the text of an output is what its glyphs show. -/
theorem Rendered.toList_text_ofPieces (pieces : List Piece) :
    (Rendered.ofPieces false pieces).text.toList = (glyphs pieces).map Glyph.shown := by
  have joined := OutputLine.toList_intercalate_ofPieces 0 "" pieces
  simpa [Rendered.text, Rendered.lines, Rendered.ofPieces] using joined

/-! ## The characters of an output -/

/-- A character of a line is shown by a glyph, if the line did not have it already. -/
theorem OutputLine.mem_text_ofPieces {sourceLine : Nat} {text : String} {pieces : List Piece}
    {line : OutputLine} (member : line ∈ OutputLine.ofPieces sourceLine text pieces) {c : Char}
    (h : c ∈ line.text.toList) : c ∈ text.toList ∨ ∃ g ∈ glyphs pieces, g.shown = c := by
  induction pieces generalizing sourceLine text with
  | nil =>
    rw [List.mem_singleton.1 member] at h
    exact .inl h
  | cons piece pieces ih =>
    cases piece with
    | text content =>
      rcases ih member with begun | ⟨g, shown, same⟩
      · rw [String.toList_append, List.mem_append] at begun
        rcases begun with before | here
        · exact .inl before
        · refine .inr ⟨.char c, ?_, rfl⟩
          rw [glyphs_text_cons]
          exact List.mem_append_left _ (List.mem_map_of_mem here)
      · refine .inr ⟨g, ?_, same⟩
        rw [glyphs_text_cons]
        exact List.mem_append_right _ shown
    | newLine next =>
      rcases List.mem_cons.1 member with rfl | later
      · exact .inl h
      · rcases ih later with none | ⟨g, shown, same⟩
        · cases none
        · exact .inr ⟨g, .tail _ shown, same⟩

/-- A character of an output is shown by a glyph, ends a line, or belongs to the number of
a line. -/
theorem Rendered.mem_toList_text {numbered : Bool} {pieces : List Piece} {c : Char}
    (h : c ∈ (Rendered.ofPieces numbered pieces).text.toList) :
    (∃ g ∈ glyphs pieces, g.shown = c) ∨ c = '\n' ∨
      ∃ number : Nat, c ∈ (toString number).toList ∨ c ∈ " | ".toList := by
  rw [Rendered.text] at h
  rcases Text.mem_toList_intercalate h with ends | ⟨shown, member, inside⟩
  · exact .inr (.inl (List.mem_singleton.1 ends))
  · obtain ⟨line, isLine, rfl⟩ := List.mem_map.1 member
    have ofGlyph : c ∈ line.text.toList → ∃ g ∈ glyphs pieces, g.shown = c := by
      intro here
      rcases OutputLine.mem_text_ofPieces isLine here with none | shown
      · cases none
      · exact shown
    cases numbered with
    | false => exact .inl (ofGlyph inside)
    | true =>
      simp only [Rendered.ofPieces, if_true, String.toList_append, List.mem_append] at inside
      rcases inside with (number | bar) | here
      · exact .inr (.inr ⟨line.sourceLine, .inl number⟩)
      · exact .inr (.inr ⟨line.sourceLine, .inr bar⟩)
      · exact .inl (ofGlyph here)

end Stencil
