import Stencil.Proofs.Passage

/-!
The walk of a render.

The main statement is `render_text_eq_meaning`: the cursor that a render moves through
its source yields the meaning of the source. It rests on `glyphs_walk`, which says the
same of every stretch of the source that lies between two places, and of the numbers of
the copied line ends.
-/

namespace Stencil

/-! ## Segments with places -/

namespace Segment

/-- A segment whose literal character shows its line, if it ends one. -/
def mark : Position × Segment Char → Segment Glyph
  | (p, literal c) => literal (p.glyph c)
  | (_, tag word) => tag word

/-- A sequence of segments that starts at `p`, its characters marked. -/
def marked (p : Position) (segments : List (Segment Char)) : List (Segment Glyph) :=
  (placed p segments).map mark

def tagAt (p : Position) (word : List Char) : Tag := RawTag.tag ⟨p, String.ofList word⟩

def tag? : Position × Segment Char → Option Tag
  | (_, literal _) => none
  | (p, tag word) => some (tagAt p word)

/-- The tags of a sequence of segments that starts at `p`, taken apart. -/
def tags (p : Position) (segments : List (Segment Char)) : List Tag :=
  (placed p segments).filterMap tag?

theorem map_tag_rawTags (p : Position) (segments : List (Segment Char)) :
    (rawTags p segments).map RawTag.tag = tags p segments := by
  rw [rawTags, List.map_filterMap, tags]
  congr 1
  funext entry
  obtain ⟨p, segment⟩ := entry
  cases segment <;> rfl

theorem parts_rawTag (p : Position) (word : List Char) :
    RawTag.parts ⟨p, String.ofList word⟩ = parts word := by
  unfold parts
  exact RawTag.parts_eq_of_text rfl

theorem name_tagAt (p : Position) (word : List Char) : (tagAt p word).name = (parts word).name :=
  congrArg TagParts.name (parts_rawTag p word)

theorem raw_tagAt (p : Position) (word : List Char) : (tagAt p word).raw = (parts word).raw :=
  congrArg TagParts.raw (parts_rawTag p word)

theorem sigil_tagAt (p : Position) (word : List Char) :
    (tagAt p word).sigil = (parts word).sigil :=
  congrArg TagParts.sigil (parts_rawTag p word)

theorem stop_tagAt (p : Position) {word : List Char} (flat : '\n' ∉ word) :
    (tagAt p word).stop = p.past word := by
  rw [Position.past_of_notMem p flat]
  simp [tagAt, Tag.stop, RawTag.tag, RawTag.width]

/-- A part of a placed sequence is a placed part of the sequence. -/
theorem placed_eq_append {p q : Position} {segments : List (Segment Char)} {close : Segment Char}
    {front back : List (Position × Segment Char)}
    (h : placed p segments = front ++ (q, close) :: back) :
    ∃ body after, segments = body ++ close :: after ∧ front = placed p body ∧
      q = p.past (body.flatMap chars) ∧ back = placed (q.past close.chars) after := by
  induction front generalizing p segments with
  | nil =>
    cases segments with
    | nil => cases h
    | cons segment rest =>
      obtain ⟨same, rfl⟩ := List.cons.inj h
      cases same
      exact ⟨[], rest, rfl, rfl, rfl, rfl⟩
  | cons entry front ih =>
    cases segments with
    | nil => cases h
    | cons segment rest =>
      obtain ⟨rfl, later⟩ := List.cons.inj h
      obtain ⟨body, after, rfl, rfl, rfl, rfl⟩ := ih later
      refine ⟨segment :: body, after, rfl, rfl, ?_, rfl⟩
      rw [List.flatMap_cons, Position.past_append]

/-- Where a placed segment stands. -/
theorem exists_of_mem_placed {p q : Position} {segment : Segment Char} {segments : List (Segment Char)}
    (h : (q, segment) ∈ placed p segments) :
    ∃ front back, segments = front ++ segment :: back ∧ q = p.past (front.flatMap chars) := by
  obtain ⟨before, after, split⟩ := List.append_of_mem h
  obtain ⟨front, back, whole, -, place, -⟩ := placed_eq_append split
  exact ⟨front, back, whole, place⟩

/-- The search for a close comes to the same among the tags as among the segments. -/
theorem upToClose_placed (p : Position) (segments : List (Segment Char)) :
    (upToClose Tag.sigil 0 (tags p segments) = (tags p segments, none) ∧
      upToClose sigil? 0 (marked p segments) = (marked p segments, none)) ∨
    ∃ body word after, segments = body ++ tag word :: after ∧
      (parts word).sigil = some .closing ∧
      upToClose Tag.sigil 0 (tags p segments) =
        (tags p body, some (tagAt (p.past (body.flatMap chars)) word,
          tags ((p.past (body.flatMap chars)).past word) after)) ∧
      upToClose sigil? 0 (marked p segments) =
        (marked p body, some (tag word,
          marked ((p.past (body.flatMap chars)).past word) after)) := by
  have tagDropped : ∀ entry, tag? entry = none → entry.2.sigil? = none := by
    rintro ⟨q, segment⟩ none
    cases segment with
    | literal c => rfl
    | tag word => cases none
  have tagKept : ∀ entry b, tag? entry = some b → b.sigil = entry.2.sigil? := by
    rintro ⟨q, segment⟩ b some
    cases segment with
    | literal c => cases some
    | tag word =>
      cases some
      exact sigil_tagAt q word
  have markKept : ∀ (entry : Position × Segment Char) b,
      (some ∘ mark) entry = some b → b.sigil? = entry.2.sigil? := by
    rintro ⟨q, segment⟩ b some
    cases segment <;> cases some <;> rfl
  have amongTags := upToClose_filterMap tagDropped tagKept 0 (placed p segments)
  have amongMarked := upToClose_filterMap (by rintro entry ⟨⟩) markKept 0 (placed p segments)
  rw [List.filterMap_eq_map] at amongMarked
  rcases found : upToClose (fun entry : Position × Segment Char => entry.2.sigil?) 0
    (placed p segments) with ⟨front, _ | ⟨⟨q, close⟩, back⟩⟩
  · left
    rw [found, upToClose_none found] at amongTags amongMarked
    exact ⟨amongTags, amongMarked⟩
  · right
    obtain ⟨whole, closes⟩ := upToClose_some found
    obtain ⟨body, after, rfl, rfl, rfl, rfl⟩ := placed_eq_append whole
    rw [found] at amongTags amongMarked
    cases close with
    | literal c => cases closes
    | tag word => exact ⟨body, word, after, rfl, closes, amongTags, amongMarked⟩

end Segment

/-! ## The walk of a render -/

namespace Rendering

open Segment

variable {r : Rendering} {tag : Tag} {body rest : Outline} {cursor boundary : Position}
  {scope : Path}

theorem walk_value (h : tag.sigil = none) (inside : tag.position < boundary) :
    r.walk (.cons tag body rest) cursor boundary scope =
      copySource r.template cursor tag.position ++
        .text (r.variableText tag scope) :: r.walk rest tag.stop boundary scope := by
  rw [walk, if_neg (Position.not_le.2 inside)]
  simp [Tag.opens, Tag.isClosing, h]

theorem walk_close (h : tag.sigil = some .closing) (inside : tag.position < boundary) :
    r.walk (.cons tag body rest) cursor boundary scope =
      copySource r.template cursor tag.position ++ r.walk rest tag.stop boundary scope := by
  rw [walk, if_neg (Position.not_le.2 inside)]
  simp [Tag.opens, Tag.isClosing, Sigil.opens, h]

theorem copySource_self (t : Template) (p : Position) : copySource t p p = [] :=
  if_pos (Position.le_refl p)

/-- The walk over a section that is not closed: its body is all that is left. -/
theorem walk_unclosed (h : tag.opens = true) (inside : tag.position < boundary) :
    r.walk (.cons tag body .nil) cursor boundary scope =
      copySource r.template cursor tag.position ++
        (r.sectionScopes tag scope).flatMap (r.walk body tag.stop boundary) := by
  rw [walk, if_neg (Position.not_le.2 inside), if_pos h]
  simp [Outline.leadingClose?, walk, copySource_self]

/-- The walk over a section that is closed. -/
theorem walk_closed {close : Tag} (h : tag.opens = true) (inside : tag.position < boundary)
    (closes : close.sigil = some .closing) (closeInside : close.position < boundary) :
    r.walk (.cons tag body (.cons close .nil rest)) cursor boundary scope =
      copySource r.template cursor tag.position ++
        ((r.sectionScopes tag scope).flatMap (r.walk body tag.stop close.position) ++
          r.walk rest close.stop boundary scope) := by
  rw [walk, if_neg (Position.not_le.2 inside), if_pos h]
  have ends : (Outline.cons close .nil rest).leadingClose? = some close := by
    simp [Outline.leadingClose?, Tag.isClosing, closes]
  dsimp only
  rw [ends, Option.elim_some, walk_close closes closeInside, copySource_self, List.nil_append]

theorem variableText_eq (r : Rendering) (tag : Tag) (scope : Path) :
    r.variableText tag scope =
      Passage.variableMeaning r.store r.options tag.name tag.raw scope := by
  unfold variableText Passage.variableMeaning
  split <;> simp_all

theorem repeatedScopes_ok (resolution : Resolution) :
    repeatedScopes (.ok resolution) =
      (List.range resolution.passCount).map (resolution.passScope ·) := by
  cases resolution <;> rfl

/-- A section means its body in the scopes of its passes. -/
theorem meaning_enclose {α : Type} (inserted : Char → α) {sigil : Sigil}
    (h : tag.sigil = some sigil) (opens : sigil ≠ .closing) (body rest : Passage α) :
    (Passage.enclose sigil tag.name body rest).meaning r.store r.options inserted scope =
      ((r.sectionScopes tag scope).flatMap (body.meaning r.store r.options inserted)) ++
        rest.meaning r.store r.options inserted scope := by
  unfold sectionScopes
  cases sigil with
  | closing => exact absurd rfl opens
  | opening =>
    cases found : r.store.resolve scope tag.name with
    | error e => simp [Passage.enclose, Passage.meaning, h, found, repeatedScopes]
    | ok resolution =>
      simp [Passage.enclose, Passage.meaning, h, found, repeatedScopes_ok, List.flatMap_map]
  | inverted =>
    cases found : r.store.resolve scope tag.name with
    | error e => simp [Passage.enclose, Passage.meaning, h, found, invertedScopes]
    | ok resolution =>
      by_cases none : resolution.passCount = 0 <;>
        simp [Passage.enclose, Passage.meaning, h, found, invertedScopes, none]

section Stretch

variable {source : String} {segments : List (Segment Char)} {front back : List Char}

/-- Segments whose tags are words that lie on one line. -/
def WellCut (segments : List (Segment Char)) : Prop :=
  ∀ word, .tag word ∈ segments → word ≠ [] ∧ '\n' ∉ word

/-- Wherever `segments` stand in the source, the walk over them yields what they
mean. -/
def Follows (r : Rendering) (source : String) (segments : List (Segment Char)) : Prop :=
  ∀ (front back : List Char) (scope : Path),
    source.toList = front ++ (segments.flatMap chars ++ back) →
    glyphs (r.walk (.nest (tags (.behind front) segments)) (.behind front)
        ((Position.behind front).past (segments.flatMap chars)) scope) =
      (Passage.nest (marked (.behind front) segments)).meaning r.store r.options .char scope

theorem tags_cons_tag (p : Position) (word : List Char) (rest : List (Segment Char)) :
    tags p (.tag word :: rest) = tagAt p word :: tags (p.past word) rest := rfl

theorem marked_cons_tag (p : Position) (word : List Char) (rest : List (Segment Char)) :
    marked p (.tag word :: rest) = .tag word :: marked (p.past word) rest := rfl

theorem position_tagAt (p : Position) (word : List Char) : (tagAt p word).position = p := rfl

/-- A section and what follows it, when shorter sequences of segments are followed. -/
theorem glyphs_walk_section {word : List Char} {sigil : Sigil} {rest : List (Segment Char)}
    (hsigil : (parts word).sigil = some sigil) (opens : sigil ≠ .closing)
    (words : WellCut (.tag word :: rest))
    (shorter : ∀ part, part.length ≤ rest.length → WellCut part → r.Follows source part)
    (cut : source.toList = front ++ (word ++ (rest.flatMap chars ++ back)))
    (cursor : Position) (scope : Path) :
    glyphs (r.walk (.nest (tags (.behind front) (.tag word :: rest))) cursor
        ((Position.behind front).past (word ++ rest.flatMap chars)) scope) =
      glyphs (copySource r.template cursor (.behind front)) ++
        (Passage.nest (marked (.behind front) (.tag word :: rest))).meaning
          r.store r.options .char scope := by
  obtain ⟨nonempty, flat⟩ := words word List.mem_cons_self
  have sigilHere := (sigil_tagAt (.behind front) word).trans hsigil
  have opensHere : (tagAt (.behind front) word).opens = true := by
    cases sigil <;> simp_all [Tag.opens, Sigil.opens]
  have inside : (tagAt (.behind front) word).position <
      (Position.behind front).past (word ++ rest.flatMap chars) :=
    Position.lt_past _ (by simp [nonempty])
  rw [tags_cons_tag, marked_cons_tag]
  rcases upToClose_placed ((Position.behind front).past word) rest with
    ⟨foundTags, foundMarked⟩ | ⟨body, close, after, rfl, closes, foundTags, foundMarked⟩
  · -- The section holds all the rest.
    have follow := shorter rest (Nat.le_refl _) (fun w member => words w (.tail _ member))
      (front ++ word) back
    simp only [Position.behind_append, List.append_assoc] at follow
    rw [Outline.nest_cons_unclosed opensHere foundTags, walk_unclosed opensHere inside,
      Passage.nest_unclosed hsigil opens foundMarked, ← name_tagAt (.behind front),
      meaning_enclose _ sigilHere opens, glyphs_append, glyphs_flatMap, stop_tagAt _ flat,
      Position.past_append, Passage.meaning, List.append_nil]
    simp only [follow _ cut, position_tagAt]
  · -- The section ends at a close, and what follows the close is walked on its own.
    obtain ⟨closeNonempty, closeFlat⟩ := words close (by simp)
    have followBody := shorter body (by simp) (fun w member => words w (by simp [member]))
      (front ++ word) (close ++ (after.flatMap chars ++ back))
    have followAfter := shorter after (by simp; omega) (fun w member => words w (by simp [member]))
      (front ++ word ++ body.flatMap chars ++ close) back scope (by simpa [chars] using cut)
    simp only [Position.behind_append, Position.past_append, List.append_assoc]
      at followBody followAfter
    simp only [List.flatMap_append, List.flatMap_cons, chars, Position.past_append,
      List.append_assoc] at inside cut ⊢
    have closeInside : (tagAt (((Position.behind front).past word).past (body.flatMap chars))
        close).position < ((((Position.behind front).past word).past (body.flatMap chars)).past
          close).past (after.flatMap chars) := by
      rw [← Position.past_append _ close]
      exact Position.lt_past _ (by simp [closeNonempty])
    rw [Outline.nest_cons_closed opensHere foundTags, walk_closed opensHere inside
        ((sigil_tagAt _ close).trans closes) closeInside,
      Passage.nest_closed hsigil opens foundMarked, ← name_tagAt (.behind front),
      meaning_enclose _ sigilHere opens, glyphs_append, glyphs_append, glyphs_flatMap,
      stop_tagAt _ flat, stop_tagAt _ closeFlat, followAfter]
    simp only [followBody _ cut, position_tagAt]

/-- The walk over a stretch of the source, from a place in front of `pending` text to
the end of further segments, yields what the stretch means. -/
theorem glyphs_walk (parsed : r.template = .parse source) {pending : List Char}
    (words : WellCut segments)
    (cut : source.toList = front ++ (pending ++ (segments.flatMap chars ++ back)))
    (scope : Path) :
    glyphs (r.walk (.nest (tags ((Position.behind front).past pending) segments))
        (.behind front) (((Position.behind front).past pending).past (segments.flatMap chars))
        scope) =
      copied (.behind front) pending ++
        (Passage.nest (marked ((Position.behind front).past pending) segments)).meaning
          r.store r.options .char scope := by
  induction length : segments.length using Nat.strongRecOn
    generalizing segments front pending back scope with
  | ind count ih =>
  have shorter : ∀ part : List (Segment Char), part.length < count → WellCut part →
      r.Follows source part := by
    intro part less wellCut front back scope cut
    have cutHere : source.toList = front ++ ([] ++ (part.flatMap chars ++ back)) := cut
    exact ih part.length less wellCut cutHere scope rfl
  have copy := glyphs_copySource cut
  rw [← parsed] at copy
  cases segments with
  | nil =>
    have none : tags ((Position.behind front).past pending) [] = [] := rfl
    have noneMarked : marked ((Position.behind front).past pending) [] = [] := rfl
    rw [none, noneMarked, Outline.nest_nil, walk, Passage.nest_nil, Passage.meaning,
      List.append_nil]
    exact copy
  | cons segment rest =>
    have wellCut : WellCut rest := fun word member => words word (.tail _ member)
    have restShorter : rest.length < count := by simp at length; omega
    cases segment with
    | literal c =>
      have cutHere : source.toList = front ++ (pending ++ [c] ++ (rest.flatMap chars ++ back)) := by
        simpa [chars] using cut
      have follow := ih rest.length restShorter wellCut cutHere scope rfl
      rw [Position.past_append, copied_append, List.append_assoc] at follow
      have markedHere : marked ((Position.behind front).past pending) (literal c :: rest) =
          literal (((Position.behind front).past pending).glyph c) ::
            marked (((Position.behind front).past pending).past [c]) rest := rfl
      rw [markedHere, Passage.nest_literal, Passage.meaning]
      exact follow
    | tag word =>
      obtain ⟨nonempty, flat⟩ := words word List.mem_cons_self
      have inside : (tagAt ((Position.behind front).past pending) word).position <
          ((Position.behind front).past pending).past ((tag word :: rest).flatMap chars) :=
        Position.lt_past _ (by simp [chars, nonempty])
      cases hsigil : (parts word).sigil with
      | some sigil =>
        by_cases closes : sigil = .closing
        · subst closes
          have closesHere := (sigil_tagAt ((Position.behind front).past pending) word).trans hsigil
          have follow := shorter rest restShorter wellCut (front ++ pending ++ word) back scope
            (by simpa [chars] using cut)
          simp only [Position.behind_append] at follow
          rw [tags_cons_tag, marked_cons_tag, Outline.nest_cons_flat (by simp [Tag.opens,
            Sigil.opens, closesHere]), walk_close closesHere inside, Passage.nest_close hsigil,
            glyphs_append, position_tagAt, copy, stop_tagAt _ flat, List.flatMap_cons, chars,
            Position.past_append, follow]
        · have cutHere : source.toList =
              front ++ pending ++ (word ++ (rest.flatMap chars ++ back)) := by
            simpa [chars] using cut
          have follow := glyphs_walk_section hsigil closes words
            (fun part less => shorter part (by simp at length; omega)) cutHere
            (.behind front) scope
          rw [Position.behind_append, copy] at follow
          rw [List.flatMap_cons, chars]
          exact follow
      | none =>
        have plainHere := (sigil_tagAt ((Position.behind front).past pending) word).trans hsigil
        have follow := shorter rest restShorter wellCut (front ++ pending ++ word) back scope
          (by simpa [chars] using cut)
        simp only [Position.behind_append] at follow
        rw [tags_cons_tag, marked_cons_tag, Outline.nest_cons_flat (by simp [Tag.opens, plainHere]),
          walk_value plainHere inside, Passage.nest_value hsigil, glyphs_append, glyphs_text_cons,
          position_tagAt, copy, stop_tagAt _ flat, List.flatMap_cons, chars, Position.past_append,
          follow, variableText_eq, name_tagAt, raw_tagAt, Passage.meaning]

end Stretch

end Rendering

theorem Template.outline_parse (source : String) :
    (Template.parse source).outline =
      .nest (Segment.tags .start (Segment.cut source.toList)) := by
  rw [← Segment.map_tag_rawTags, Segment.rawTags_cut, ← Outline.ofTags_eq_nest]
  rfl

/-- A render yields the meaning of its source, each line end with its number. -/
theorem Rendering.glyphs_pieces (source : String) (store : Store) (options : Options) :
    glyphs (Rendering.pieces ⟨.parse source, store, options⟩) =
      (Passage.nest (Segment.marked .start (Segment.cut source.toList))).meaning
        store options .char [] := by
  have whole := Segment.flatMap_chars_cut source.toList
  have words : WellCut (Segment.cut source.toList) :=
    fun word member => Segment.word_of_mem_cut member
  have cut : source.toList =
      [] ++ ([] ++ ((Segment.cut source.toList).flatMap Segment.chars ++ [])) := by
    simp [whole]
  have parsed : Rendering.template ⟨.parse source, store, options⟩ = .parse source := rfl
  have follow := glyphs_walk parsed words cut []
  rw [Position.past_nil, Position.behind_nil, whole] at follow
  rw [Rendering.pieces, Template.outline_parse, Template.stop_parse]
  exact follow

/-! ## The text of a render -/

/-- Without their numbers, marked segments are the segments themselves. -/
theorem Segment.map_shown_marked (p : Position) (segments : List (Segment Char)) :
    (marked p segments).map (Segment.map Glyph.shown) = segments := by
  induction segments generalizing p with
  | nil => rfl
  | cons segment rest ih =>
    have here : (mark (p, segment)).map Glyph.shown = segment := by
      cases segment with
      | literal c => exact congrArg literal (shown_glyph p c)
      | tag word => rfl
    rw [marked, placed, List.map_cons, List.map_cons, here]
    exact congrArg (segment :: ·) (ih (p.past segment.chars))

/-- Without line numbers, a render shows the meaning of its source: of the segments
that make up the source and hold the scanned tags, nested by the closes. -/
theorem render_text_eq_meaning (source : String) (store : Store) (options : Options)
    (unnumbered : options.lineNumbers = false) :
    let segments := Segment.cut source.toList
    segments.flatMap Segment.chars = source.toList ∧
      Segment.rawTags .start segments = scan source ∧
      ((Template.parse source).render store options).text =
        (Passage.nest segments).text store options := by
  refine ⟨Segment.flatMap_chars_cut source.toList, Segment.rawTags_cut source, ?_⟩
  apply String.toList_injective
  rw [Template.render, unnumbered, Rendered.toList_text_ofPieces, Rendering.glyphs_pieces,
    Passage.map_meaning, ← Passage.nest_map, Segment.map_shown_marked, Passage.text,
    String.toList_ofList]
  rfl

/-- A stray close, a section over a list whose close has another name, and an inverted
section that is not closed: `{{/x}}Hi {{#a}}{{.}},{{/b}}{{^c}}no {{c}}`. -/
theorem render_text_eq_meaning_sections :
    let source := "\x7b\x7b/x\x7d\x7dHi \x7b\x7b#a\x7d\x7d\x7b\x7b.\x7d\x7d,\x7b\x7b/b\x7d\x7d\x7b\x7b^c\x7d\x7dno \x7b\x7bc\x7d\x7d"
    let store : Store := ⟨.mapping [("a", .list [.scalar "1", .scalar "2"])]⟩
    ({} : Options).lineNumbers = false ∧
      ((Template.parse source).render store {}).text =
        (Passage.nest (Segment.cut source.toList)).text store {} ∧
      (Passage.nest (Segment.cut source.toList)).text store {} = "Hi 1,2,no (XXXX)" := by
  intro source store
  have unnumbered : ({} : Options).lineNumbers = false := rfl
  obtain ⟨-, -, same⟩ := render_text_eq_meaning source store {} unnumbered
  exact ⟨unnumbered, same, by decide +kernel⟩

end Stencil
