import Stencil.Proofs.Scanned
import Stencil.Proofs.Walk

/-!
The lines of an output and their numbers.

An `Expansion` is what a render is to show, with sections unrolled: characters that were copied
from places of the source, and characters that were inserted for variables. The reader of a
numbered output counts on three things, and `render_lines` says all of them. A line ends where a
line end was copied, and nowhere else; a line has the number of the source line that begins
behind the line end in front of it; and there is such a source line. Where no section is
repeated or left out, the lines are those of the source, in order.
-/

namespace Stencil

/-! ## Lines of glyphs -/

/-- The number of the source line that begins behind a copied line end. -/
def Glyph.nextLine? : Glyph → Option Nat
  | char _ => none
  | lineEnd next => some next

def Glyph.isLineEnd (g : Glyph) : Bool := g.nextLine?.isSome

theorem filterMap_nextLine?_char (cs : List Char) :
    (cs.map Glyph.char).filterMap Glyph.nextLine? = [] := by
  rw [List.filterMap_map, List.filterMap_eq_nil_iff]
  exact fun _ _ => rfl

/-- Without a separator at the front of a list, the first part begins with the front. -/
theorem splitOnP_append_of_none {α : Type} {p : α → Bool} {front : List α}
    (none : ∀ a ∈ front, p a = false) (back : List α) :
    (front ++ back).splitOnP p = (back.splitOnP p).modifyHead (front ++ ·) := by
  induction front with
  | nil => exact (congrFun List.modifyHead_id _).symm
  | cons a front ih =>
    obtain ⟨here, later⟩ := List.forall_mem_cons.1 none
    rw [List.cons_append, List.splitOnP_cons_eq_if_modifyHead, if_neg (Bool.eq_false_iff.1 here),
      ih later, List.modifyHead_modifyHead]
    rfl

theorem splitOnP_map {α β : Type} (f : α → β) (p : β → Bool) (l : List α) :
    (l.map f).splitOnP p = (l.splitOnP (p ∘ f)).map (List.map f) := by
  induction l with
  | nil => rfl
  | cons a l ih =>
    rw [List.map_cons, List.splitOnP_cons_eq_if_modifyHead, List.splitOnP_cons_eq_if_modifyHead, ih,
      Function.comp_apply]
    split
    · rfl
    · cases l.splitOnP (p ∘ f) with
      | nil => rfl
      | cons first others => rfl

namespace OutputLine

theorem map_sourceLine_ofPieces (sourceLine : Nat) (text : String) (pieces : List Piece) :
    (ofPieces sourceLine text pieces).map OutputLine.sourceLine =
      sourceLine :: (glyphs pieces).filterMap Glyph.nextLine? := by
  induction pieces generalizing sourceLine text with
  | nil => rfl
  | cons piece pieces ih =>
    cases piece with
    | text content =>
      rw [ofPieces, ih, glyphs_text_cons, List.filterMap_append, filterMap_nextLine?_char,
        List.nil_append]
    | newLine next =>
      rw [ofPieces, List.map_cons, ih]
      rfl

/-- The lines of an output are what its glyphs show between the copied line ends. -/
theorem map_text_ofPieces (sourceLine : Nat) (text : String) (pieces : List Piece) :
    (ofPieces sourceLine text pieces).map (·.text.toList) =
      (((glyphs pieces).splitOnP Glyph.isLineEnd).map (List.map Glyph.shown)).modifyHead
        (text.toList ++ ·) := by
  induction pieces generalizing sourceLine text with
  | nil => simp [ofPieces]
  | cons piece pieces ih =>
    cases piece with
    | text content =>
      have flat : ∀ g ∈ content.toList.map Glyph.char, g.isLineEnd = false := by
        intro g member
        obtain ⟨c, -, rfl⟩ := List.mem_map.1 member
        rfl
      rw [ofPieces, ih, glyphs_text_cons, splitOnP_append_of_none flat]
      cases (glyphs pieces).splitOnP Glyph.isLineEnd with
      | nil => rfl
      | cons first others =>
        simp only [List.modifyHead_cons, List.map_cons, List.map_append, map_shown_char,
          String.toList_append, List.append_assoc]
    | newLine next =>
      rw [ofPieces, List.map_cons, ih, glyphs_newLine_cons, List.splitOnP_cons_eq_if_modifyHead]
      cases (glyphs pieces).splitOnP Glyph.isLineEnd with
      | nil => simp [Glyph.isLineEnd, Glyph.nextLine?]
      | cons first others => simp [Glyph.isLineEnd, Glyph.nextLine?]

theorem map_text_ofPieces_empty (sourceLine : Nat) (pieces : List Piece) :
    (ofPieces sourceLine "" pieces).map OutputLine.text =
      ((glyphs pieces).splitOnP Glyph.isLineEnd).map
        fun line => String.ofList (line.map Glyph.shown) := by
  have characters := congrArg (List.map String.ofList) (map_text_ofPieces sourceLine "" pieces)
  have nothing : ("".toList ++ ·) = (id : List Char → List Char) := rfl
  rw [nothing, List.modifyHead_id, id, List.map_map, List.map_map] at characters
  simpa only [Function.comp_def, String.ofList_toList] using characters

end OutputLine

/-! ## Literal characters of a passage -/

def Segment.literal? {α : Type} : Segment α → Option α
  | literal a => some a
  | tag _ => none

namespace Passage

variable {α : Type}

/-- The characters of a passage outside its tags. -/
def literals : Passage α → List α
  | nil => []
  | literal a rest => a :: rest.literals
  | value _ _ rest => rest.literals
  | repeated _ body rest => body.literals ++ rest.literals
  | inverted _ body rest => body.literals ++ rest.literals

theorem literals_enclose (sigil : Sigil) (name : String) (body rest : Passage α) :
    (enclose sigil name body rest).literals = body.literals ++ rest.literals := by
  unfold enclose
  split <;> rfl

/-- Nesting keeps the characters outside the tags, in order. -/
theorem literals_nest (segments : List (Segment α)) :
    (nest segments).literals = segments.filterMap Segment.literal? := by
  fun_induction nest segments with
  | case1 => rfl
  | case2 a rest ih => exact congrArg (a :: ·) ih
  | case3 word rest hsigil ih => exact ih
  | case4 word rest hsigil ih => exact ih
  | case5 word rest sigil opens hsigil body found ih =>
    rw [literals_enclose, ih, upToClose_none found]
    exact List.append_nil _
  | case6 word rest sigil opens hsigil body close after found ihBody ihAfter =>
    obtain ⟨split, closes⟩ := upToClose_some found
    have isTag : close.literal? = none := by
      cases close with
      | literal a => cases closes
      | tag word => rfl
    have skipped : (Segment.tag word :: rest).filterMap Segment.literal? =
        (body ++ close :: after).filterMap Segment.literal? := by
      rw [← split]
      rfl
    rw [literals_enclose, ihBody, ihAfter, skipped, List.filterMap_append,
      List.filterMap_cons_none isTag]

variable {store : Store} {options : Options} {inserted : Char → α}

/-- A passage means nothing else than its own characters and inserted ones. -/
theorem mem_meaning {p : Passage α} {scope : Path} {a : α}
    (h : a ∈ p.meaning store options inserted scope) :
    a ∈ p.literals ∨ ∃ c, a = inserted c := by
  induction p generalizing scope with
  | nil => cases h
  | literal b rest ih =>
    rcases List.mem_cons.1 h with rfl | later
    · exact .inl List.mem_cons_self
    · exact (ih later).imp_left (.tail _)
  | value name raw rest ih =>
    rcases List.mem_append.1 h with here | later
    · obtain ⟨c, -, rfl⟩ := List.mem_map.1 here
      exact .inr ⟨c, rfl⟩
    · exact ih later
  | repeated name body rest ihBody ihRest =>
    rcases List.mem_append.1 h with here | later
    · split at here
      · obtain ⟨pass, -, inside⟩ := List.mem_flatMap.1 here
        exact (ihBody inside).imp_left (List.mem_append_left _)
      · cases here
    · exact (ihRest later).imp_left (List.mem_append_right _)
  | inverted name body rest ihBody ihRest =>
    rcases List.mem_append.1 h with here | later
    · split at here
      · split at here
        · exact (ihBody here).imp_left (List.mem_append_left _)
        · cases here
      · exact (ihBody here).imp_left (List.mem_append_left _)
    · exact (ihRest later).imp_left (List.mem_append_right _)

/-- Where no section opens, each character of the text is shown once, in order. -/
theorem filterMap_meaning_nest {β : Type} {f : α → Option β} (unseen : ∀ c, f (inserted c) = none)
    {segments : List (Segment α)}
    (flat : ∀ word, .tag word ∈ segments → (Segment.parts word).sigil.any Sigil.opens = false)
    (scope : Path) :
    ((nest segments).meaning store options inserted scope).filterMap f =
      (segments.filterMap Segment.literal?).filterMap f := by
  induction segments with
  | nil =>
    rw [nest_nil]
    rfl
  | cons segment rest ih =>
    have later := ih fun word member => flat word (.tail _ member)
    cases segment with
    | literal a =>
      rw [nest_literal, meaning, List.filterMap_cons, later]
      rfl
    | tag word =>
      have here := flat word List.mem_cons_self
      cases hsigil : (Segment.parts word).sigil with
      | none =>
        have shown (text : List Char) : (text.map inserted).filterMap f = [] := by
          rw [List.filterMap_map, List.filterMap_eq_nil_iff]
          exact fun c _ => unseen c
        rw [nest_value hsigil, meaning, List.filterMap_append, shown, later]
        rfl
      | some sigil =>
        rw [hsigil] at here
        cases sigil with
        | closing =>
          rw [nest_close hsigil, later]
          rfl
        | opening => cases here
        | inverted => cases here

end Passage

/-! ## Places -/

theorem Position.line_past (p : Position) (cs : List Char) :
    (p.past cs).line = p.line + cs.count '\n' := by
  induction cs generalizing p with
  | nil => rfl
  | cons c cs ih =>
    rw [past_cons, ih]
    by_cases ends : c = '\n'
    · rw [ends, after_lineEnd, List.count_cons_self]
      exact Nat.succ_add_eq_add_succ ..
    · rw [after_of_ne p ends, List.count_cons_of_ne ends]
      rfl

/-- There is a line behind each line end. -/
theorem StandsAt.line_succ_lt {source : String} {p : Position} (h : StandsAt source p ['\n']) :
    p.line + 1 < (Template.parse source).lineCount := by
  obtain ⟨front, back, cut, rfl⟩ := h
  have cutBehind : source.toList = (front ++ ['\n']) ++ ([] ++ back) := by simpa using cut
  have inside := (Template.slice?_line_parse cutBehind List.not_mem_nil).1
  rwa [Position.behind_append] at inside

theorem Template.lineCount_parse (source : String) :
    (parse source).lineCount = source.toList.count '\n' + 1 := by
  have line : (Position.behind source.toList).line = 0 + source.toList.count '\n' :=
    Position.line_past .start source.toList
  rw [lineCount_eq_line_behind, line, Nat.zero_add]

/-! ## Expansions -/

/-- A character that a render is to show. -/
inductive Expanded
  /-- It was copied from a place in the source. -/
  | source (place : Position) (c : Char)
  /-- It belongs to a text that was put in for a variable. -/
  | value (c : Char)
  deriving DecidableEq

namespace Expanded

def char : Expanded → Char
  | source _ c => c
  | value c => c

/-- The number of the source line behind a copied line end. -/
def nextLine? : Expanded → Option Nat
  | source place c => if c = '\n' then some (place.line + 1) else none
  | value _ => none

/-- Whether it is a line end of the source. -/
def isLineEnd : Expanded → Bool
  | source _ c => c = '\n'
  | value _ => false

def glyph : Expanded → Glyph
  | source place c => place.glyph c
  | value c => .char c

theorem shown_glyph (e : Expanded) : e.glyph.shown = e.char := by
  cases e with
  | source place c => exact Stencil.shown_glyph place c
  | value c => rfl

theorem nextLine?_glyph (e : Expanded) : e.glyph.nextLine? = e.nextLine? := by
  cases e with
  | source place c =>
    rw [glyph, nextLine?, Position.glyph]
    split <;> rfl
  | value c => rfl

theorem isLineEnd_glyph (e : Expanded) : e.glyph.isLineEnd = e.isLineEnd := by
  rw [Glyph.isLineEnd, nextLine?_glyph]
  cases e with
  | source place c =>
    rw [nextLine?, isLineEnd]
    split <;> simp [*]
  | value c => rfl

end Expanded

/-- A segment whose literal character keeps its place. -/
def Segment.located : Position × Segment Char → Segment Expanded
  | (p, literal c) => literal (.source p c)
  | (_, tag word) => tag word

/-- What a source is to show, with its sections unrolled. -/
def expansion (source : String) (store : Store) (options : Options) : List Expanded :=
  (Passage.nest ((Segment.placed .start (Segment.cut source.toList)).map Segment.located)).meaning
    store options .value []

section Expansion

variable {source : String} {store : Store} {options : Options}

/-- A render shows the expansion of its source. -/
theorem map_glyph_expansion (source : String) (store : Store) (options : Options) :
    (expansion source store options).map Expanded.glyph =
      glyphs (Rendering.pieces ⟨.parse source, store, options⟩) := by
  have marked : ((Segment.placed .start (Segment.cut source.toList)).map Segment.located).map
      (Segment.map Expanded.glyph) = Segment.marked .start (Segment.cut source.toList) := by
    rw [List.map_map, Segment.marked]
    refine List.map_congr_left fun entry _ => ?_
    obtain ⟨p, segment⟩ := entry
    cases segment <;> rfl
  rw [Rendering.glyphs_pieces, expansion, Passage.map_meaning, ← Passage.nest_map, marked]
  rfl

/-- What was copied stands in the source at its place. -/
theorem standsAt_of_mem_expansion {place : Position} {c : Char}
    (h : .source place c ∈ expansion source store options) : StandsAt source place [c] := by
  rcases Passage.mem_meaning h with isLiteral | ⟨d, other⟩
  · rw [Passage.literals_nest] at isLiteral
    obtain ⟨located, member, isLiteral⟩ := List.mem_filterMap.1 isLiteral
    obtain ⟨⟨p, segment⟩, here, rfl⟩ := List.mem_map.1 member
    cases segment with
    | tag word => cases isLiteral
    | literal d =>
      cases isLiteral
      obtain ⟨front, back, whole, place⟩ := Segment.exists_of_mem_placed here
      refine ⟨front.flatMap Segment.chars, back.flatMap Segment.chars, ?_, place.symm⟩
      rw [← Segment.flatMap_chars_cut source.toList, whole, List.flatMap_append, List.flatMap_cons]
      rfl
  · cases other

/-- Each line but the first begins behind a line end of the source. -/
theorem lt_lineCount_of_mem_nextLine {n : Nat}
    (h : n ∈ (expansion source store options).filterMap Expanded.nextLine?) :
    n < (Template.parse source).lineCount := by
  obtain ⟨e, member, isNext⟩ := List.mem_filterMap.1 h
  cases e with
  | value c => cases isNext
  | source place c =>
    rw [Expanded.nextLine?] at isNext
    split at isNext
    · rename_i ends
      subst ends
      cases isNext
      exact (standsAt_of_mem_expansion member).line_succ_lt
    · cases isNext

/-- The line ends of a text, in order. -/
theorem filterMap_nextLine?_placed (p : Position) {segments : List (Segment Char)}
    (words : Rendering.WellCut segments) :
    (((Segment.placed p segments).map Segment.located).filterMap Segment.literal?).filterMap
        Expanded.nextLine? =
      List.range' (p.line + 1) ((segments.flatMap Segment.chars).count '\n') := by
  induction segments generalizing p with
  | nil => rfl
  | cons segment rest ih =>
    have later := ih (p.past segment.chars) fun word member => words word (.tail _ member)
    rw [Position.line_past] at later
    rw [Segment.placed, List.map_cons, List.flatMap_cons, List.count_append]
    cases segment with
    | literal c =>
      have shown : Segment.literal? (Segment.literal (Expanded.source p c)) =
          some (.source p c) := rfl
      rw [Segment.chars] at later ⊢
      rw [Segment.located, List.filterMap_cons_some shown]
      by_cases ends : c = '\n'
      · have next : Expanded.nextLine? (.source p c) = some (p.line + 1) := if_pos ends
        rw [ends, List.count_singleton_self] at later
        rw [List.filterMap_cons_some next, ends, later, List.count_singleton_self,
          Nat.add_comm 1 (List.count _ _), List.range'_succ]
      · have none : Expanded.nextLine? (.source p c) = none := if_neg ends
        have noEnd : [c].count '\n' = 0 := List.count_eq_zero_of_not_mem (by simpa using Ne.symm ends)
        rw [noEnd] at later
        rw [List.filterMap_cons_none none, later, noEnd, Nat.zero_add, Nat.add_zero]
    | tag word =>
      obtain ⟨-, flat⟩ := words word List.mem_cons_self
      have noEnd : word.count '\n' = 0 := List.count_eq_zero_of_not_mem flat
      have none : Segment.literal? (Segment.tag word : Segment Expanded) = none := rfl
      rw [Segment.chars, noEnd] at later ⊢
      rw [Segment.located, List.filterMap_cons_none none, later, Nat.zero_add, Nat.add_zero]

/-- Where no section opens, the numbers of the lines go up one by one. -/
theorem nextLines_eq_range' (flat : ∀ tag ∈ scan source, tag.tag.opens = false) :
    (expansion source store options).filterMap Expanded.nextLine? =
      List.range' 1 (source.toList.count '\n') := by
  have words : Rendering.WellCut (Segment.cut source.toList) :=
    fun word member => Segment.word_of_mem_cut member
  have noSection : ∀ word, .tag word ∈
      (Segment.placed .start (Segment.cut source.toList)).map Segment.located →
        (Segment.parts word).sigil.any Sigil.opens = false := by
    intro word member
    obtain ⟨⟨p, segment⟩, here, same⟩ := List.mem_map.1 member
    cases segment with
    | literal c => cases same
    | tag word =>
      cases same
      have scanned : ⟨p, String.ofList word⟩ ∈ scan source := by
        rw [← Segment.rawTags_cut source]
        exact List.mem_filterMap.2 ⟨(p, .tag word), here, rfl⟩
      rw [← Segment.parts_rawTag p word]
      exact flat _ scanned
  rw [expansion, Passage.filterMap_meaning_nest (fun _ => rfl) noSection,
    filterMap_nextLine?_placed .start words, Segment.flatMap_chars_cut]
  rfl

theorem map_text_outputLines (source : String) (store : Store) (options : Options) :
    ((Template.parse source).render store options).outputLines.map OutputLine.text =
      ((expansion source store options).splitOnP Expanded.isLineEnd).map
        fun line => String.ofList (line.map Expanded.char) := by
  have lineEnds : Glyph.isLineEnd ∘ Expanded.glyph = Expanded.isLineEnd :=
    funext Expanded.isLineEnd_glyph
  have characters : Glyph.shown ∘ Expanded.glyph = Expanded.char := funext Expanded.shown_glyph
  refine (OutputLine.map_text_ofPieces_empty 0 _).trans ?_
  rw [← map_glyph_expansion, splitOnP_map, lineEnds, List.map_map]
  refine List.map_congr_left fun line _ => ?_
  rw [Function.comp_apply, List.map_map, characters]

theorem map_sourceLine_outputLines (source : String) (store : Store) (options : Options) :
    ((Template.parse source).render store options).outputLines.map OutputLine.sourceLine =
      0 :: (expansion source store options).filterMap Expanded.nextLine? := by
  have next : Glyph.nextLine? ∘ Expanded.glyph = Expanded.nextLine? :=
    funext Expanded.nextLine?_glyph
  refine (OutputLine.map_sourceLine_ofPieces 0 "" _).trans ?_
  rw [← map_glyph_expansion, List.filterMap_map, next]

/-- The number of a line is that of a source line. -/
theorem sourceLine_lt_lineCount {line : OutputLine}
    (h : line ∈ ((Template.parse source).render store options).outputLines) :
    line.sourceLine < (Template.parse source).lineCount := by
  have isNumber := List.mem_map_of_mem (f := OutputLine.sourceLine) h
  rw [map_sourceLine_outputLines] at isNumber
  rcases List.mem_cons.1 isNumber with first | later
  · rw [first, Template.lineCount_parse]
    exact Nat.succ_pos _
  · exact lt_lineCount_of_mem_nextLine later

end Expansion

/-- What a numbered output looks like, for all data. Its lines are the expansion of the source
split at the line ends that were copied, and only there. The first has the number 0, each other
one that of the source line behind the line end in front of it, and all of these are lines of the
source. Where no section opens, they are all lines of the source, in order. -/
theorem render_lines (source : String) (store : Store) (options : Options)
    (numbered : options.lineNumbers = true) :
    let t := Template.parse source
    let rendered := t.render store options
    let expanded := expansion source store options
    let texts := (expanded.splitOnP Expanded.isLineEnd).map
      fun line => String.ofList (line.map Expanded.char)
    let numbers := 0 :: expanded.filterMap Expanded.nextLine?
    (∀ place c, .source place c ∈ expanded → StandsAt source place [c]) ∧
    rendered.outputLines.map OutputLine.text = texts ∧
    rendered.outputLines.map OutputLine.sourceLine = numbers ∧
    rendered.lines = List.zipWith (fun number text => s!"{number} | {text}") numbers texts ∧
    (∀ number ∈ numbers, number < t.lineCount) ∧
    ((∀ tag ∈ scan source, tag.tag.opens = false) → numbers = List.range t.lineCount) := by
  intro t rendered expanded texts numbers
  have isText : rendered.outputLines.map OutputLine.text = texts := map_text_outputLines ..
  have isNumber : rendered.outputLines.map OutputLine.sourceLine = numbers :=
    map_sourceLine_outputLines ..
  refine ⟨fun place c => standsAt_of_mem_expansion, isText, isNumber, ?shown, ?below, ?flat⟩
  case shown =>
    rw [← isText, ← isNumber, List.zipWith_map, List.zipWith_self]
    exact List.map_congr_left fun line _ => if_pos numbered
  case below =>
    intro number member
    rw [← isNumber] at member
    obtain ⟨line, isLine, rfl⟩ := List.mem_map.1 member
    exact sourceLine_lt_lineCount isLine
  case flat =>
    intro flat
    rw [Template.lineCount_parse, List.range_eq_range', List.range'_succ]
    exact congrArg (0 :: ·) (nextLines_eq_range' flat)

/-- A repeated body, an item with a line end of its own, a body that is left out, and a source
without sections: `{{#hosts}}`, `- {{.}}{{/hosts}}{{^hosts}}`, `none{{/hosts}}`, `.` on four lines,
and `{{title}}` on the first of three. -/
theorem render_lines_hosts :
    let source := "\x7b\x7b#hosts\x7d\x7d\n- \x7b\x7b.\x7d\x7d\x7b\x7b/hosts\x7d\x7d\x7b\x7b^hosts\x7d\x7d\nnone\x7b\x7b/hosts\x7d\x7d\n."
    let plain := "\x7b\x7btitle\x7d\x7d\n\n."
    let store : Store := ⟨.mapping [("title", .scalar "x\ny"),
      ("hosts", .list [.scalar "a", .scalar "b\nc"])]⟩
    let options : Options := { lineNumbers := true }
    let rendered := (Template.parse source).render store options
    options.lineNumbers = true ∧ (∀ tag ∈ scan plain, tag.tag.opens = false) ∧
      rendered.outputLines.map OutputLine.sourceLine = [0, 1, 1, 3] ∧
      rendered.lines = ["0 | ", "1 | - a", "1 | - b\nc", "3 | ."] ∧
      (∀ number ∈ [0, 1, 1, 3], number < (Template.parse source).lineCount) ∧
      (0 :: (expansion plain store options).filterMap Expanded.nextLine?) =
        List.range (Template.parse plain).lineCount ∧
      List.range (Template.parse plain).lineCount = [0, 1, 2] := by
  intro source plain store options rendered
  have noSection : ∀ tag ∈ scan plain, tag.tag.opens = false := by decide +kernel
  have numbers : 0 :: (expansion source store options).filterMap Expanded.nextLine? = [0, 1, 1, 3] := by
    decide +kernel
  have shown : rendered.lines = ["0 | ", "1 | - a", "1 | - b\nc", "3 | ."] := by decide +kernel
  obtain ⟨-, -, isNumber, -, below, -⟩ := render_lines source store options rfl
  obtain ⟨-, -, -, -, -, range⟩ := render_lines plain store options rfl
  rw [numbers] at isNumber below
  exact ⟨rfl, noSection, isNumber, shown, below, range noSection, by decide +kernel⟩

end Stencil
