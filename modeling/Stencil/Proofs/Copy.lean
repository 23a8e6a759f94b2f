import Mathlib.Data.List.Basic
import Stencil.Proofs.Glyph
import Stencil.Proofs.Place

/-!
Copying source text. A render copies what lies between two places, line by line
and by byte columns; `glyphs_copySource` says that between the places of two cuts
of the source it copies exactly the text between the cuts, each line end with the
number of the line it starts.
-/

namespace Stencil

/-! ## Copied text as glyphs -/

/-- What is shown for a source character that stands at `p`. -/
def Position.glyph (p : Position) (c : Char) : Glyph :=
  if c = '\n' then .lineEnd (p.line + 1) else .char c

/-- What is shown for a source text that starts at `p`. -/
def copied (p : Position) : List Char → List Glyph
  | [] => []
  | c :: cs => p.glyph c :: copied (p.after c) cs

theorem copied_append (p : Position) (front back : List Char) :
    copied p (front ++ back) = copied p front ++ copied (p.past front) back := by
  induction front generalizing p with
  | nil => rfl
  | cons c front ih => simp [copied, ih]

theorem shown_glyph (p : Position) (c : Char) : (p.glyph c).shown = c := by
  unfold Position.glyph
  split
  · rw [‹c = '\n'›]; rfl
  · rfl

/-- A text without line ends is copied as it is. -/
theorem copied_of_notMem {cs : List Char} (p : Position) (h : '\n' ∉ cs) :
    copied p cs = cs.map .char := by
  induction cs generalizing p with
  | nil => rfl
  | cons c cs ih =>
    obtain ⟨hc, hcs⟩ := not_or.1 (mt List.mem_cons.2 h)
    simp [copied, Position.glyph, Ne.symm hc, ih _ hcs]

/-! ## Copying between two places -/

namespace Rendering

variable {source : String} {front inside back : List Char}

/-- What is copied of the lines from `start` to `stop`, whichever comes first. -/
def span (t : Template) (start stop : Position) : List Piece :=
  (List.range' start.line (stop.line + 1 - start.line)).flatMap fun index =>
    let slice := Piece.text (String.ofList (lineSlice t start stop index))
    if index = start.line then [slice] else [.newLine index, slice]

theorem copySource_eq (t : Template) (start stop : Position) :
    copySource t start stop = if stop ≤ start then [] else span t start stop := rfl

/-- What is copied of a line behind the first. -/
def laterLine (t : Template) (stop : Position) (index : Nat) : List Piece :=
  [.newLine index, .text (String.ofList (lineSlice t ⟨index, 0⟩ stop index))]

theorem span_of_line_eq {t : Template} {start stop : Position} (h : start.line = stop.line) :
    span t start stop = [.text (String.ofList (lineSlice t start stop start.line))] := by
  simp [span, ← h]

theorem lineSlice_of_ne {t : Template} {start stop : Position} {index : Nat}
    (h : index ≠ start.line) :
    lineSlice t start stop index = lineSlice t ⟨index, 0⟩ stop index := by
  simp [lineSlice, h]

theorem span_eq {t : Template} {start stop : Position} (h : start.line ≤ stop.line) :
    span t start stop =
      .text (String.ofList (lineSlice t start stop start.line)) ::
        (List.range' (start.line + 1) (stop.line - start.line)).flatMap (laterLine t stop) := by
  have count : stop.line + 1 - start.line = (stop.line - start.line) + 1 := by omega
  have later : ∀ index ∈ List.range' (start.line + 1) (stop.line - start.line),
      (if index = start.line then
          [Piece.text (String.ofList (lineSlice t start stop index))]
        else [.newLine index, .text (String.ofList (lineSlice t start stop index))]) =
      laterLine t stop index := by
    intro index member
    obtain ⟨low, -⟩ := List.mem_range'_1.1 member
    have apart : index ≠ start.line := by omega
    rw [if_neg apart, lineSlice_of_ne apart, laterLine]
  simp only [span, count, List.range'_succ, List.flatMap_cons, if_true]
  rw [List.flatMap_congr later, List.singleton_append]

/-- A span over several lines is the rest of its first line, and the span from
the beginning of the next line on. -/
theorem span_of_line_lt {t : Template} {start stop : Position} (h : start.line < stop.line) :
    span t start stop =
      .text (String.ofList (lineSlice t start stop start.line)) ::
        .newLine (start.line + 1) :: span t ⟨start.line + 1, 0⟩ stop := by
  have count : stop.line - start.line = (stop.line - (start.line + 1)) + 1 := by omega
  have rest : (⟨start.line + 1, 0⟩ : Position).line ≤ stop.line := h
  rw [span_eq (Nat.le_of_lt h), count, List.range'_succ, List.flatMap_cons, span_eq rest]
  rfl

/-- The first line of a span, when all of it lies on that line. -/
theorem lineSlice_flat {source : String} {front inside back : List Char}
    (cut : source.toList = front ++ (inside ++ back)) (flat : '\n' ∉ inside) :
    lineSlice (.parse source) (Position.behind front) ((Position.behind front).past inside)
      (Position.behind front).line = inside := by
  obtain ⟨begun, column, line⟩ := Template.line_parse cut flat
  rw [Position.past_of_notMem _ flat]
  simp [lineSlice, Position.advance, line, ← column, Text.slice?_append]

/-- The first line of a span that goes on behind its line end. -/
theorem lineSlice_ending {source : String} {front inside back : List Char} {stop : Position}
    (cut : source.toList = front ++ (inside ++ '\n' :: back)) (flat : '\n' ∉ inside)
    (later : (Position.behind front).line ≠ stop.line) :
    lineSlice (.parse source) (Position.behind front) stop
      (Position.behind front).line = inside := by
  obtain ⟨begun, column, line⟩ := Template.line_parse cut flat
  rw [Text.lines_cons_lineEnd, List.headD_cons] at line
  simp only [lineSlice, line, later, if_true, if_false, ← column, Text.byteLength_append,
    Text.byteLength, Nat.add_zero]
  rw [Text.slice?_append, Option.getD_some]

/-- A span between the places of two cuts shows the text between them. -/
theorem glyphs_span {source : String} {front inside back : List Char}
    (cut : source.toList = front ++ (inside ++ back)) :
    glyphs (span (.parse source) (Position.behind front)
        ((Position.behind front).past inside)) =
      copied (Position.behind front) inside := by
  -- One line of the text at a time.
  induction length : inside.length using Nat.strongRecOn generalizing front inside with
  | ind count ih =>
  by_cases ends : '\n' ∈ inside
  · obtain ⟨first, rest, rfl, flat⟩ := List.eq_append_cons_of_mem ends
    have below := Position.line_lt_past_nextLine (Position.behind front).line rest
    have cutBehind : source.toList = front ++ (first ++ ['\n']) ++ (rest ++ back) := by
      simpa using cut
    have shown := ih rest.length (by simp at length; omega) cutBehind rfl
    rw [Position.behind_append_lineEnd front flat] at shown
    rw [Position.past_append_lineEnd _ flat, span_of_line_lt below,
      lineSlice_ending (by simpa using cut) flat (Nat.ne_of_lt below), glyphs_text_cons,
      glyphs_newLine_cons, shown, copied_append, copied_of_notMem _ flat,
      Position.past_of_notMem _ flat]
    simp [copied, Position.glyph, Position.after_lineEnd, Position.advance]
  · have oneLine : (Position.behind front).line = ((Position.behind front).past inside).line := by
      rw [Position.past_of_notMem _ ends]
      rfl
    rw [span_of_line_eq oneLine, lineSlice_flat cut ends, copied_of_notMem _ ends]
    simp

/-- Between the places of two cuts of the source, a render copies the text
between the cuts. -/
theorem glyphs_copySource {source : String} {front inside back : List Char}
    (cut : source.toList = front ++ (inside ++ back)) :
    glyphs (copySource (.parse source) (Position.behind front)
        ((Position.behind front).past inside)) =
      copied (Position.behind front) inside := by
  rw [copySource_eq]
  split
  · have none : inside = [] := by
      by_contra some
      exact Position.not_le.2 (Position.lt_past (Position.behind front) some) ‹_›
    rw [none]
    rfl
  · exact glyphs_span cut

end Rendering

end Stencil
