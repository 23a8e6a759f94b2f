import Stencil.Proofs.Chronology
import Stencil.Proofs.Scanned
import Stencil.Proofs.Walk

/-!
A render drops no text.

A walk has answers for places that are out of order: it leaves out the tags at and behind its
boundary, copies nothing up to a place that has been passed, takes a missing line for an empty one,
and shows nothing where its columns do not fit a line. All of that would lose text, and none of it
ever happens.

* `Template.hasSlice_parse`: between two places of a source, every line can be cut as asked.
* `Outline.Fits`: the tags of a body stand in order between its cursor and its boundary, and so do
  those of the bodies inside. This is what a step of the walk hands on.
* `Outline.fits_nest`: tags that follow one another in a source fit when they are nested.
* `Rendering.walk?`: the walk without those answers, which fails instead.
* `Rendering.gapless`: all of it, for every render of a source.
-/

namespace Stencil

/-! ## Stretches of a source -/

/-- Two places of a source, with some text or none from the one to the other. -/
def Stretch (source : String) (start stop : Position) : Prop :=
  ∃ inside, StandsAt source start inside ∧ start.past inside = stop

namespace Stretch

variable {source : String} {start stop : Position}

theorem of_cut {front inside back : List Char} (cut : source.toList = front ++ (inside ++ back)) :
    Stretch source (.behind front) ((Position.behind front).past inside) :=
  ⟨inside, ⟨front, back, cut, rfl⟩, rfl⟩

theorem le (h : Stretch source start stop) : start ≤ stop := by
  obtain ⟨inside, -, rfl⟩ := h
  exact Position.le_past start inside

/-- Where a stretch ends, one without any text begins and ends. -/
theorem stop_self (h : Stretch source start stop) : Stretch source stop stop := by
  obtain ⟨inside, ⟨front, back, cut, rfl⟩, rfl⟩ := h
  have cutBehind : source.toList = (front ++ inside) ++ ([] ++ back) := by simpa using cut
  have empty := of_cut cutBehind
  rwa [Position.behind_append] at empty

end Stretch

/-! ## Lines of a stretch -/

/-- A byte offset of a text that lies in front of a character or at the end. -/
def Text.IsCut (cs : List Char) (offset : Nat) : Prop :=
  ∃ front back, cs = front ++ back ∧ byteLength front = offset

namespace Rendering

/-- Where the copied part of a line begins. -/
def firstColumn (start : Position) (index : Nat) : Nat :=
  if index = start.line then start.column else 0

/-- Where the copied part of a line ends. -/
def lastColumn (line : List Char) (stop : Position) (index : Nat) : Nat :=
  if index = stop.line then stop.column else Text.byteLength line

/-- The part of a source line that lies between two places, if the template has the line and the
columns fit it. -/
def lineSlice? (t : Template) (start stop : Position) (index : Nat) : Option (List Char) :=
  (t.line? index).bind fun line =>
    Text.slice? line (firstColumn start index) (lastColumn line stop index)

end Rendering

open Rendering in
/-- A template has a line that is to be copied, with the columns from which and up to which it is:
the first is not behind the last, and each lies on the line between two characters. Then what is
copied is taken from that line and from nothing else. -/
structure Template.HasSlice (t : Template) (start stop : Position) (index : Nat) : Prop where
  line_lt : index < t.lineCount
  ordered : firstColumn start index ≤ lastColumn (t.line index) stop index
  within : lastColumn (t.line index) stop index ≤ Text.byteLength (t.line index)
  first_isCut : Text.IsCut (t.line index) (firstColumn start index)
  last_isCut : Text.IsCut (t.line index) (lastColumn (t.line index) stop index)
  slice : lineSlice? t start stop index = some (lineSlice t start stop index)

namespace Template

open Rendering

variable {t : Template} {start stop : Position} {index : Nat}

/-- A line in three parts, of which the middle one is to be copied. -/
theorem hasSlice_of_append {begun piece rest : List Char}
    (found : t.line? index = some (begun ++ (piece ++ rest)))
    (first : Text.byteLength begun = firstColumn start index)
    (last : Text.byteLength begun + Text.byteLength piece =
      lastColumn (begun ++ (piece ++ rest)) stop index) : t.HasSlice start stop index := by
  have line : t.line index = begun ++ (piece ++ rest) := by rw [Template.line, found, Option.getD_some]
  have slice := Text.slice?_append begun piece rest
  rw [last, first] at slice
  constructor
  case line_lt =>
    obtain ⟨range, isRange, -⟩ := Option.bind_eq_some_iff.1 found
    exact (List.getElem?_eq_some_iff.1 isRange).1
  case ordered =>
    rw [line]
    omega
  case within =>
    rw [line, ← last, Text.byteLength_append, Text.byteLength_append]
    omega
  case first_isCut => exact ⟨begun, piece ++ rest, line, first⟩
  case last_isCut =>
    refine ⟨begun ++ piece, rest, by rw [line, List.append_assoc], ?_⟩
    rw [Text.byteLength_append, last, line]
  case slice =>
    have shown : lineSlice t start stop index = piece := by
      change (Text.slice? (t.line index) (firstColumn start index)
        (lastColumn (t.line index) stop index)).getD [] = piece
      rw [line, slice, Option.getD_some]
    rw [lineSlice?, found, Option.bind_some, slice, shown]

/-- Behind its first line, a stretch is copied from the beginning of each line on. -/
theorem HasSlice.of_later {line : Nat} (h : t.HasSlice ⟨line, 0⟩ stop index)
    (later : start.line < index) : t.HasSlice start stop index := by
  have fromStart : firstColumn start index = 0 := if_neg (Nat.ne_of_gt later)
  have fromThere : firstColumn ⟨line, 0⟩ index = 0 := ite_self 0
  have same : firstColumn start index = firstColumn ⟨line, 0⟩ index := fromStart.trans fromThere.symm
  have slice : lineSlice t start stop index = lineSlice t ⟨line, 0⟩ stop index := by
    change (Text.slice? _ (firstColumn start index) _).getD [] = _
    rw [same]
    rfl
  exact
    { line_lt := h.line_lt
      ordered := same ▸ h.ordered
      within := h.within
      first_isCut := same ▸ h.first_isCut
      last_isCut := h.last_isCut
      slice := by rw [slice, ← h.slice, lineSlice?, same, lineSlice?] }

section Lines

variable {source : String} {front inside back : List Char}

/-- The line of a stretch that lies on one line. -/
theorem hasSlice_flat (cut : source.toList = front ++ (inside ++ back)) (flat : '\n' ∉ inside) :
    (parse source).HasSlice (.behind front) ((Position.behind front).past inside)
      (Position.behind front).line := by
  obtain ⟨begun, column, found⟩ := Text.getElem?_lines_past front back flat
  rw [← cut, ← line?_parse] at found
  refine hasSlice_of_append found (column.trans (if_pos rfl).symm) ?_
  rw [Position.past_of_notMem _ flat, column]
  exact (if_pos rfl).symm

/-- The first line of a stretch that goes on behind its line end. -/
theorem hasSlice_ending (cut : source.toList = front ++ (inside ++ '\n' :: back))
    (flat : '\n' ∉ inside) (later : (Position.behind front).line ≠ stop.line) :
    (parse source).HasSlice (.behind front) stop (Position.behind front).line := by
  obtain ⟨begun, column, found⟩ := Text.getElem?_lines_past front ('\n' :: back) flat
  rw [← cut, ← line?_parse, Text.lines_cons_lineEnd, List.headD_cons] at found
  refine hasSlice_of_append found (column.trans (if_pos rfl).symm) ?_
  rw [lastColumn, if_neg later, List.append_nil, Text.byteLength_append]

/-- Between two places of a source, every line can be cut as asked. -/
theorem hasSlice_parse (h : Stretch source start stop) (fromStart : start.line ≤ index)
    (toStop : index ≤ stop.line) : (parse source).HasSlice start stop index := by
  obtain ⟨inside, ⟨front, back, cut, rfl⟩, rfl⟩ := h
  -- One line of the text at a time.
  induction length : inside.length using Nat.strongRecOn generalizing front inside with
  | ind count ih =>
  by_cases ends : '\n' ∈ inside
  · obtain ⟨first, rest, rfl, flat⟩ := List.eq_append_cons_of_mem ends
    rw [Position.past_append_lineEnd _ flat] at toStop ⊢
    rcases Nat.eq_or_lt_of_le fromStart with rfl | later
    · have below := Position.line_lt_past_nextLine (Position.behind front).line rest
      exact hasSlice_ending (by simpa using cut) flat (Nat.ne_of_lt below)
    · have cutBehind : source.toList = (front ++ (first ++ ['\n'])) ++ (rest ++ back) := by
        simpa using cut
      have shorter : rest.length < count := by simp at length; omega
      have behind := ih rest.length shorter rest (front ++ (first ++ ['\n'])) cutBehind
      rw [Position.behind_append_lineEnd front flat] at behind
      exact (behind later toStop rfl).of_later later
  · have oneLine := Position.past_of_notMem (Position.behind front) ends
    rw [oneLine] at toStop
    have here : index = (Position.behind front).line := Nat.le_antisymm toStop fromStart
    rw [here]
    exact hasSlice_flat cut ends

end Lines

end Template

/-! ## Tags in order -/

/-- Tags that follow one another in a source on the way from one place to another: some text or
none in front of each, and none of them empty. -/
def Strung (source : String) : List Tag → Position → Position → Prop
  | [], start, stop => Stretch source start stop
  | tag :: tags, start, stop =>
    Stretch source start tag.position ∧ tag.position < tag.stop ∧ Strung source tags tag.stop stop

namespace Strung

variable {source : String} {start stop : Position}

/-- Where the tags of a part end that a close ends, the close begins. -/
theorem of_append_cons {body after : List Tag} {close : Tag}
    (h : Strung source (body ++ close :: after) start stop) :
    Strung source body start close.position ∧ close.position < close.stop ∧
      Strung source after close.stop stop := by
  induction body generalizing start with
  | nil => exact h
  | cons tag body ih =>
    obtain ⟨literal, nonempty, later⟩ := h
    obtain ⟨inside, closeNonempty, behind⟩ := ih later
    exact ⟨⟨literal, nonempty, inside⟩, closeNonempty, behind⟩

theorem stop_self {tags : List Tag} (h : Strung source tags start stop) :
    Stretch source stop stop := by
  induction tags generalizing start with
  | nil => exact Stretch.stop_self h
  | cons tag tags ih => exact ih h.2.2

end Strung

/-- The tags of a source follow one another from its start to its end. The text `literal` has been
passed since the last tag. -/
theorem strung_tags {source : String} {front literal back : List Char}
    (cut : source.toList = front ++ (literal ++ back)) :
    Strung source (Segment.tags ((Position.behind front).past literal) (Segment.cut back))
      (.behind front) (.behind source.toList) := by
  fun_induction Segment.cut back generalizing front literal with
  | case1 back word rest found ih =>
    have whole := leadingTag?_append found
    subst whole
    have cutBehind : source.toList = (front ++ (literal ++ word)) ++ ([] ++ rest) := by
      simpa using cut
    have later := ih cutBehind
    rw [Position.behind_append, Position.past_append, Position.past_nil] at later
    refine ⟨Stretch.of_cut cut, ?_, ?_⟩
    · rw [Segment.stop_tagAt _ (leadingTag?_flat found)]
      exact Position.lt_past _ (leadingTag?_ne_nil found)
    · rw [Segment.stop_tagAt _ (leadingTag?_flat found)]
      exact later
  | case2 =>
    have whole := Stretch.of_cut cut
    rwa [← Position.behind_append, ← List.append_nil literal, ← cut] at whole
  | case3 c rest absent ih =>
    have cutBehind : source.toList = front ++ ((literal ++ [c]) ++ rest) := by
      simpa using cut
    have later := ih cutBehind
    rw [Position.past_append] at later
    exact later

/-! ## Bodies that fit -/

namespace Outline

/-- The tags of a body stand in order between its cursor and its boundary, with text or nothing in
front of each, and so do those of the bodies inside. -/
def Fits (source : String) : Outline → Position → Position → Prop
  | nil, cursor, boundary => Stretch source cursor boundary
  | cons tag body rest, cursor, boundary =>
    Stretch source cursor tag.position ∧ tag.position < tag.stop ∧
      if tag.opens then
        let bodyEnd := rest.leadingClose?.elim boundary (·.position)
        body.Fits source tag.stop bodyEnd ∧ rest.Fits source bodyEnd boundary
      else rest.Fits source tag.stop boundary

/-- The tags of a body that stand in no section of it. -/
def outermost : Outline → List Tag
  | nil => []
  | cons tag _ rest => tag :: rest.outermost

variable {source : String} {cursor boundary : Position}

theorem fits_cons_opens {tag : Tag} {body rest : Outline} (opens : tag.opens = true) :
    (cons tag body rest).Fits source cursor boundary ↔
      Stretch source cursor tag.position ∧ tag.position < tag.stop ∧
        body.Fits source tag.stop (rest.leadingClose?.elim boundary (·.position)) ∧
        rest.Fits source (rest.leadingClose?.elim boundary (·.position)) boundary := by
  rw [Fits, if_pos opens]

theorem fits_cons_flat {tag : Tag} {body rest : Outline} (flat : ¬ tag.opens = true) :
    (cons tag body rest).Fits source cursor boundary ↔
      Stretch source cursor tag.position ∧ tag.position < tag.stop ∧
        rest.Fits source tag.stop boundary := by
  rw [Fits, if_neg flat]

/-- Tags that follow one another in a source fit when they are nested. -/
theorem fits_nest {tags : List Tag} (strung : Strung source tags cursor boundary) :
    (nest tags).Fits source cursor boundary := by
  fun_induction nest tags generalizing cursor boundary with
  | case1 => exact strung
  | case2 tag rest opens body found ih =>
    -- The body is all the rest, and ends at the boundary of the section itself.
    obtain ⟨literal, nonempty, later⟩ := strung
    rw [upToClose_none found] at ih ⊢
    exact (fits_cons_opens opens).2 ⟨literal, nonempty, ih later, later.stop_self⟩
  | case3 tag rest opens body close after found ihBody ihAfter =>
    obtain ⟨literal, nonempty, later⟩ := strung
    obtain ⟨whole, closes⟩ := upToClose_some found
    rw [whole] at later
    obtain ⟨inside, closeNonempty, behind⟩ := later.of_append_cons
    have isClosing : close.isClosing = true := by simp [Tag.isClosing, closes]
    have closeFlat : ¬ close.opens = true := by simp [Tag.opens, Sigil.opens, closes]
    have bodyEnd : (cons close nil (nest after)).leadingClose? = some close := if_pos isClosing
    rw [fits_cons_opens opens, bodyEnd, Option.elim_some, fits_cons_flat closeFlat]
    exact ⟨literal, nonempty, ihBody inside, inside.stop_self, closeNonempty, ihAfter behind⟩
  | case4 tag rest flat ih =>
    obtain ⟨literal, nonempty, later⟩ := strung
    exact (fits_cons_flat flat).2 ⟨literal, nonempty, ih later⟩

namespace Fits

theorem le {outline : Outline} (h : outline.Fits source cursor boundary) : cursor ≤ boundary := by
  induction outline generalizing cursor boundary with
  | nil => exact Stretch.le h
  | cons tag body rest ihBody ihRest =>
    have reached : tag.stop ≤ boundary := by
      by_cases opens : tag.opens = true
      · obtain ⟨-, -, inside, later⟩ := (fits_cons_opens opens).1 h
        exact Position.le_trans (ihBody inside) (ihRest later)
      · obtain ⟨-, -, later⟩ := (fits_cons_flat opens).1 h
        exact ihRest later
    exact Position.le_trans h.1.le (Position.le_trans (Position.le_of_lt h.2.1) reached)

/-- What follows the first tag of a body fits behind it. -/
theorem rest {tag : Tag} {body rest : Outline}
    (h : (cons tag body rest).Fits source cursor boundary) :
    ∃ further, tag.stop ≤ further ∧ rest.Fits source further boundary := by
  by_cases opens : tag.opens = true
  · obtain ⟨-, -, inside, later⟩ := (fits_cons_opens opens).1 h
    exact ⟨_, inside.le, later⟩
  · obtain ⟨-, -, later⟩ := (fits_cons_flat opens).1 h
    exact ⟨_, Position.le_refl _, later⟩

theorem position_lt {tag : Tag} {body rest : Outline}
    (h : (cons tag body rest).Fits source cursor boundary) : tag.position < boundary := by
  obtain ⟨further, reached, later⟩ := h.rest
  exact Position.lt_of_lt_of_le h.2.1 (Position.le_trans reached later.le)

/-- All tags of a body stand between its cursor and its boundary. -/
theorem outermost {outline : Outline} (h : outline.Fits source cursor boundary) :
    ∀ child ∈ outline.outermost, cursor ≤ child.position ∧ child.position < boundary := by
  induction outline generalizing cursor with
  | nil => exact fun child none => absurd none List.not_mem_nil
  | cons tag body rest _ ihRest =>
    intro child member
    rcases List.mem_cons.1 member with rfl | later
    · exact ⟨h.1.le, h.position_lt⟩
    · obtain ⟨further, reached, fits⟩ := h.rest
      obtain ⟨behind, inside⟩ := ihRest fits child later
      have passed := Position.le_trans (Position.le_of_lt h.2.1) (Position.le_trans reached behind)
      exact ⟨Position.le_trans h.1.le passed, inside⟩

end Fits

end Outline

/-- The tags of a template fit between its start and its end. -/
theorem Template.fits_parse (source : String) :
    (parse source).outline.Fits source .start (parse source).stop := by
  have cut : source.toList = [] ++ ([] ++ source.toList) := rfl
  rw [outline_parse, stop_parse]
  exact Outline.fits_nest (strung_tags cut)

/-! ## Events in place -/

/-- What is done in its place: a body is entered whose tags all stand between the cursor and the
boundary, and a copy goes from a place to one that is not in front of it, with all its lines cut as
they can be. The copies of a body go from the cursor to the next tag each, and at last to the
boundary. -/
def Event.InPlace (t : Template) : Event → Prop
  | enter chunk =>
    chunk.cursor ≤ chunk.boundary ∧
      ∀ child ∈ chunk.body.outermost,
        chunk.cursor ≤ child.position ∧ child.position < chunk.boundary
  | copy start stop =>
    start ≤ stop ∧
      ∀ index, start.line ≤ index → index ≤ stop.line → t.HasSlice start stop index
  | insert _ _ _ => True

namespace Rendering

variable {r : Rendering} {source : String}

theorem inPlace_copy {start stop : Position} (h : Stretch source start stop) :
    (Event.copy start stop).InPlace (.parse source) :=
  ⟨h.le, fun _ fromStart toStop => Template.hasSlice_parse h fromStart toStop⟩

/-- Where the tags of a body fit, all is done in its place. -/
theorem inPlace_bodyEvents {outline : Outline} {cursor boundary : Position}
    (fits : outline.Fits source cursor boundary) (scope : Path) (passes : List Pass) :
    ∀ event ∈ r.bodyEvents outline cursor boundary scope passes,
      event.InPlace (.parse source) := by
  induction outline generalizing cursor boundary scope passes with
  | nil => exact List.forall_mem_singleton.2 (inPlace_copy fits)
  | cons tag body rest ihBody ihRest =>
    rw [bodyEvents, if_neg (Position.not_le.2 fits.position_lt)]
    refine List.forall_mem_cons.2 ⟨inPlace_copy fits.1, ?_⟩
    by_cases opens : tag.opens = true
    · obtain ⟨-, -, inside, later⟩ := (Outline.fits_cons_opens opens).1 fits
      rw [if_pos opens]
      refine List.forall_mem_append.2 ⟨?_, ihRest later scope passes⟩
      intro event member
      obtain ⟨⟨inner, number⟩, -, during⟩ := List.mem_flatMap.1 member
      rcases List.mem_cons.1 during with rfl | below
      · exact ⟨inside.le, inside.outermost⟩
      · exact ihBody inside inner _ event below
    · obtain ⟨-, -, later⟩ := (Outline.fits_cons_flat opens).1 fits
      rw [if_neg opens]
      split
      · exact ihRest later scope passes
      · exact List.forall_mem_cons.2 ⟨trivial, ihRest later scope passes⟩

/-- In a render of a source, all is done in its place. -/
theorem inPlace_events (parsed : r.template = .parse source) :
    ∀ event ∈ r.events, event.InPlace (.parse source) := by
  have fits := Template.fits_parse source
  rw [events, parsed]
  exact List.forall_mem_cons.2 ⟨⟨fits.le, fits.outermost⟩, inPlace_bodyEvents fits [] []⟩

/-! ## A walk without fallbacks -/

/-- What is put out for a line of which a part is copied. -/
def linePieces (start : Position) (index : Nat) (slice : List Char) : List Piece :=
  if index = start.line then [.text (String.ofList slice)]
  else [.newLine index, .text (String.ofList slice)]

theorem span_eq_flatMap (t : Template) (start stop : Position) :
    span t start stop =
      (List.range' start.line (stop.line + 1 - start.line)).flatMap fun index =>
        linePieces start index (lineSlice t start stop index) := rfl

/-- The source text from `start` up to `stop`, if they are in order and each line is there and can
be cut as asked. -/
def copySource? (t : Template) (start stop : Position) : Option (List Piece) :=
  if stop < start then none
  else if stop ≤ start then some []
  else do
    let lines ← (List.range' start.line (stop.line + 1 - start.line)).mapM fun index =>
      (lineSlice? t start stop index).map (linePieces start index)
    return lines.flatten

/-- There is no place inside a character. -/
example : copySource? (.parse "é") .start ⟨0, 1⟩ = none := by decide +kernel

/-- The output for the tags of one body, from `cursor` to `boundary`, if they all stand in front of
the boundary and in order, and everything between them can be copied. -/
def walk? (r : Rendering) : Outline → Position → Position → Path → Option (List Piece)
  | .nil, cursor, boundary, _ => copySource? r.template cursor boundary
  | .cons tag body rest, cursor, boundary, scope =>
    if boundary ≤ tag.position then none
    else do
      let literal ← copySource? r.template cursor tag.position
      if tag.opens then
        let bodyEnd := rest.leadingClose?.elim boundary (·.position)
        let passes ← (r.sectionScopes tag scope).mapM (r.walk? body tag.stop bodyEnd)
        let behind ← r.walk? rest bodyEnd boundary scope
        return literal ++ (passes.flatten ++ behind)
      else
        let behind ← r.walk? rest tag.stop boundary scope
        if tag.isClosing then return literal ++ behind
        else return literal ++ .text (r.variableText tag scope) :: behind

/-- The output for the whole template, if nothing has to be left out. -/
def pieces? (r : Rendering) : Option (List Piece) :=
  r.walk? r.template.outline .start r.template.stop []

/-- Steps that all succeed succeed together. -/
theorem mapM_eq_some {α β : Type} {f : α → Option β} {g : α → β} {l : List α}
    (each : ∀ a ∈ l, f a = some (g a)) : l.mapM f = some (l.map g) := by
  induction l with
  | nil => rfl
  | cons a l ih =>
    obtain ⟨here, later⟩ := List.forall_mem_cons.1 each
    rw [List.mapM_cons, here, ih later]
    rfl

/-- What can be copied is copied. -/
theorem copySource?_parse {start stop : Position} (h : Stretch source start stop) :
    copySource? (.parse source) start stop = some (copySource (.parse source) start stop) := by
  have lines : ∀ index ∈ List.range' start.line (stop.line + 1 - start.line),
      (lineSlice? (.parse source) start stop index).map (linePieces start index) =
        some (linePieces start index (lineSlice (.parse source) start stop index)) := by
    intro index member
    obtain ⟨fromStart, toStop⟩ := List.mem_range'_1.1 member
    rw [(Template.hasSlice_parse h fromStart (by omega)).slice, Option.map_some]
  rw [copySource?, copySource_eq, if_neg (Position.not_lt.2 h.le)]
  split
  · rfl
  · rw [mapM_eq_some lines, span_eq_flatMap, List.flatMap_def]
    rfl

/-- Where the tags of a body fit, nothing has to be left out. -/
theorem walk?_eq_some (parsed : r.template = .parse source) {outline : Outline}
    {cursor boundary : Position} (fits : outline.Fits source cursor boundary) (scope : Path) :
    r.walk? outline cursor boundary scope = some (r.walk outline cursor boundary scope) := by
  induction outline generalizing cursor boundary scope with
  | nil =>
    rw [walk?, walk, parsed]
    exact copySource?_parse fits
  | cons tag body rest ihBody ihRest =>
    have inside := Position.not_le.2 fits.position_lt
    rw [walk?, walk, if_neg inside, if_neg inside, parsed, copySource?_parse fits.1]
    by_cases opens : tag.opens = true
    · obtain ⟨-, -, fitsBody, fitsRest⟩ := (Outline.fits_cons_opens opens).1 fits
      have passes := mapM_eq_some fun inner (_ : inner ∈ r.sectionScopes tag scope) =>
        ihBody fitsBody inner
      rw [Option.bind_eq_bind, Option.bind_some, if_pos opens, if_pos opens]
      dsimp only
      rw [passes, ihRest fitsRest, List.flatMap_def]
      rfl
    · obtain ⟨-, -, fitsRest⟩ := (Outline.fits_cons_flat opens).1 fits
      rw [Option.bind_eq_bind, Option.bind_some, if_neg opens, if_neg opens, ihRest fitsRest,
        Option.bind_some]
      by_cases closes : tag.isClosing = true
      · rw [if_pos closes, if_pos closes]
        rfl
      · rw [if_neg closes, if_neg closes]
        rfl

/-! ## A whole render -/

/-- A render drops no text. Whatever it does is done in its place: each body is entered with its
tags between the cursor and the boundary, each copy goes forward, and each line of a copy is there
and is cut between characters of it. These events make the output, and a walk that would rather
fail than leave something out puts out the same. -/
theorem gapless (source : String) (store : Store) (options : Options) :
    let r : Rendering := ⟨.parse source, store, options⟩
    (∀ event ∈ r.events, event.InPlace r.template) ∧
      r.events.flatMap r.output = r.pieces ∧ r.pieces? = some r.pieces := by
  intro r
  have parsed : r.template = .parse source := rfl
  have fits := Template.fits_parse source
  exact ⟨inPlace_events parsed, r.flatMap_output_events, walk?_eq_some parsed fits []⟩

/-- A section that is not closed, between letters of two bytes: `é{{#a}}ü`, `ö{{.}}`. -/
example :
    let source := "é\x7b\x7b#a\x7d\x7dü\nö\x7b\x7b.\x7d\x7d"
    let store : Store := ⟨.mapping [("a", .list [.scalar "1", .scalar "2"])]⟩
    pieces? ⟨.parse source, store, {}⟩ =
      some [.text "é", .text "ü", .newLine 1, .text "ö", .text "1", .text "ü", .newLine 1,
        .text "ö", .text "2"] := by
  decide +kernel

end Rendering

end Stencil
