import Stencil.Proofs.Segment
import Stencil.Proofs.TagWord

/-!
What a scan finds.

A word of the grammar may stand at many places of a source, also across the words that
are found. A scan goes from left to right and takes the longest word at the first place
where there is one. Here that is said without a scan: by the grammar, by the places where
words stand, and by the lines that a template cuts out of its source by ranges of bytes.

* `Segment.exists_cut_of_mem_rawTags`: each tag was read where its place says.
* `Segment.pairwise_rawTags`: tags come in order and do not overlap.
* `Segment.exists_rawTag_of_word`: a word of the grammar begins inside some tag.
* `Template.interleaved_eq`: literal text and tags in turn are the source.
* `scan_spec`: all of it, for a whole source.
-/

namespace Stencil

/-- A word stands in a source at the place where the text in front of it ends. -/
def StandsAt (source : String) (p : Position) (word : List Char) : Prop :=
  ∃ front back, source.toList = front ++ (word ++ back) ∧ Position.behind front = p

/-- The place just behind a tag. -/
def RawTag.stop (t : RawTag) : Position := t.position.advance t.width

/-! ## Tags of segments -/

namespace Segment

variable {p : Position} {cs : List Char}

theorem stop_rawTag (p : Position) {word : List Char} (flat : '\n' ∉ word) :
    RawTag.stop ⟨p, String.ofList word⟩ = p.past word := by
  rw [Position.past_of_notMem p flat]
  simp [RawTag.stop, RawTag.width]

/-- A tag among the segments was read at its place. -/
theorem exists_cut_of_mem_rawTags {tag : RawTag} (member : tag ∈ rawTags p (cut cs)) :
    ∃ front word rest, cs = front ++ (word ++ rest) ∧
      leadingTag? (word ++ rest) = some (word, rest) ∧
      tag = ⟨p.past front, String.ofList word⟩ := by
  fun_induction cut cs generalizing p with
  | case1 cs word rest found ih =>
    have whole := leadingTag?_append found
    rw [rawTags_tag] at member
    rcases List.mem_cons.1 member with rfl | later
    · exact ⟨[], word, rest, whole.symm, by rw [whole]; exact found, rfl⟩
    · obtain ⟨front, word', rest', rfl, read, rfl⟩ := ih later
      refine ⟨word ++ front, word', rest', ?_, read, ?_⟩
      · rw [← whole, List.append_assoc]
      · rw [Position.past_append]
  | case2 => cases member
  | case3 c rest absent ih =>
    rw [rawTags_literal] at member
    obtain ⟨front, word, rest', rfl, read, rfl⟩ := ih member
    exact ⟨c :: front, word, rest', rfl, read, rfl⟩

/-- No tag stands in front of the place where the search begins. -/
theorem le_position_of_mem_rawTags {tag : RawTag} (member : tag ∈ rawTags p (cut cs)) :
    p ≤ tag.position := by
  obtain ⟨front, word, rest, -, -, rfl⟩ := exists_cut_of_mem_rawTags member
  exact Position.le_past p front

/-- Each tag is longer than nothing, and ends before the next one begins. -/
theorem pairwise_rawTags (p : Position) (cs : List Char) :
    (rawTags p (cut cs)).Pairwise fun tag later =>
      tag.position < tag.stop ∧ tag.stop ≤ later.position := by
  fun_induction cut cs generalizing p with
  | case1 cs word rest found ih =>
    rw [rawTags_tag, List.pairwise_cons]
    refine ⟨?_, ih (p.past word)⟩
    intro later member
    rw [stop_rawTag p (leadingTag?_flat found)]
    exact ⟨Position.lt_past p (leadingTag?_ne_nil found), le_position_of_mem_rawTags member⟩
  | case2 => exact List.Pairwise.nil
  | case3 c rest absent ih => exact ih (p.after c)

/-- Wherever a word of the grammar begins, there is a tag. -/
theorem exists_rawTag_of_word {front word back : List Char} (h : IsTagWord word)
    (whole : cs = front ++ (word ++ back)) :
    ∃ tag ∈ rawTags p (cut cs), tag.position ≤ p.past front ∧ p.past front < tag.stop := by
  fun_induction cut cs generalizing p front with
  | case1 cs first rest found ih =>
    rw [rawTags_tag]
    have split := leadingTag?_append found
    rw [whole] at split
    rcases List.append_eq_append_iff.1 split with ⟨more, rfl, behind⟩ | ⟨inside, rfl, -⟩
    · -- The word begins behind the first tag.
      obtain ⟨tag, member, before, after⟩ := ih (p := p.past first) behind
      rw [← Position.past_append] at before after
      exact ⟨tag, .tail _ member, before, after⟩
    · -- The word begins inside the first tag, or right where that ends.
      cases inside with
      | nil =>
        rw [List.append_nil] at found split ⊢
        have behind : rest = [] ++ (word ++ back) := List.append_cancel_left split
        obtain ⟨tag, member, before, after⟩ := ih (p := p.past front) behind
        exact ⟨tag, .tail _ member, before, after⟩
      | cons c inside =>
        refine ⟨_, List.mem_cons_self, Position.le_past p front, ?_⟩
        rw [stop_rawTag p (leadingTag?_flat found), Position.past_append]
        exact Position.lt_past _ (List.cons_ne_nil c inside)
  | case2 =>
    have empty : word = [] := by
      simp only [List.nil_eq, List.append_eq_nil_iff] at whole
      exact whole.2.1
    obtain ⟨form, rfl⟩ := h
    cases empty
  | case3 c rest absent ih =>
    rw [rawTags_literal]
    cases front with
    | nil =>
      obtain ⟨longer, more, read, -⟩ := leadingTag?_of_isTagWord h back
      rw [List.nil_append] at whole
      rw [← whole, absent] at read
      cases read
    | cons d front =>
      obtain ⟨rfl, behind⟩ := List.cons.inj whole
      exact ih behind

end Segment

/-! ## Literal text and tags in turn -/

theorem map_shown_copied (p : Position) (cs : List Char) :
    (copied p cs).map Glyph.shown = cs := by
  induction cs generalizing p with
  | nil => rfl
  | cons c cs ih => rw [copied, List.map_cons, shown_glyph, ih]

namespace Template

/-- The text between two places, taken from the lines of the template. -/
def between (t : Template) (start stop : Position) : List Char :=
  (glyphs (Rendering.copySource t start stop)).map Glyph.shown

/-- The literal text from `cursor` on, with the tags in it. -/
def interleaved (t : Template) (cursor : Position) : List RawTag → List Char
  | [] => t.between cursor t.stop
  | tag :: tags =>
    t.between cursor tag.position ++ (tag.text.toList ++ t.interleaved tag.stop tags)

theorem between_parse {source : String} {front inside back : List Char}
    (cut : source.toList = front ++ (inside ++ back)) :
    (parse source).between (Position.behind front) ((Position.behind front).past inside) =
      inside := by
  rw [between, Rendering.glyphs_copySource cut, map_shown_copied]

/-- Literal text and tags in turn are the source. The text `literal` has been passed
since the last tag. -/
theorem interleaved_eq {source : String} {front literal back : List Char}
    (cut : source.toList = front ++ (literal ++ back)) :
    (parse source).interleaved (Position.behind front)
        (Segment.rawTags ((Position.behind front).past literal) (Segment.cut back)) =
      literal ++ back := by
  fun_induction Segment.cut back generalizing front literal with
  | case1 back word rest found ih =>
    have whole := leadingTag?_append found
    subst whole
    have cutBehind : source.toList = front ++ (literal ++ word) ++ ([] ++ rest) := by
      simpa using cut
    have later := ih cutBehind
    rw [Position.behind_append, Position.past_append, Position.past_nil, List.nil_append]
      at later
    rw [Segment.rawTags_tag, interleaved, between_parse cut,
      Segment.stop_rawTag _ (leadingTag?_flat found), later, String.toList_ofList]
  | case2 =>
    have stop : (parse source).stop = (Position.behind front).past literal := by
      rw [stop_parse, cut, List.append_nil, Position.behind_append]
    change (parse source).between (Position.behind front) (parse source).stop = _
    rw [stop, between_parse cut, List.append_nil]
  | case3 c rest absent ih =>
    have cutBehind : source.toList = front ++ ((literal ++ [c]) ++ rest) := by
      simpa using cut
    have later := ih cutBehind
    rw [Position.past_append, Position.past_cons, Position.past_nil, List.append_assoc] at later
    rw [Segment.rawTags_literal, later]
    rfl

/-- A word without a line end stands on one line of the template, at its columns. -/
theorem slice?_line_parse {source : String} {front word back : List Char}
    (cut : source.toList = front ++ (word ++ back)) (flat : '\n' ∉ word) :
    (Position.behind front).line < (parse source).lineCount ∧
      Text.slice? ((parse source).line (Position.behind front).line)
        (Position.behind front).column
        ((Position.behind front).column + Text.byteLength word) = some word := by
  obtain ⟨begun, column, found⟩ := Text.getElem?_lines_past front back flat
  rw [← cut] at found
  constructor
  · rw [lineCount_eq_length_lines]
    exact (List.getElem?_eq_some_iff.1 found).1
  · have line : (parse source).line (Position.behind front).line =
        begun ++ (word ++ (Text.lines back).headD []) := by
      rw [Template.line, line?_parse, found, Option.getD_some]
    rw [line, ← column]
    exact Text.slice?_append begun word _

end Template

/-! ## A whole source -/

/-- What a scan finds. Each tag is the text of one line of the template between the
columns of the tag, it is a word of the grammar, and no word of the grammar that stands at
the same place is longer. The tags come in order and do not overlap, no word of the
grammar begins outside of them, on the blank lines that are left out no more than elsewhere,
and with the literal text between them they are the source. -/
theorem scan_spec (source : String) :
    let t := Template.parse source
    (∀ tag ∈ scan source,
      (tag.position.line < t.lineCount ∧
        Text.slice? (t.line tag.position.line) tag.position.column
          (tag.position.column + tag.width) = some tag.text.toList) ∧
      IsTagWord tag.text.toList ∧ StandsAt source tag.position tag.text.toList ∧
      ∀ word, IsTagWord word → StandsAt source tag.position word → word <+: tag.text.toList) ∧
    ((scan source).Pairwise fun tag later =>
      tag.position < tag.stop ∧ tag.stop ≤ later.position) ∧
    (∀ p word, IsTagWord word → StandsAt source p word →
      ∃ tag ∈ scan source, tag.position ≤ p ∧ p < tag.stop) ∧
    t.interleaved .start (scan source) = source.toList := by
  intro t
  rw [← Segment.rawTags_cut source]
  refine ⟨?each, ?ordered, ?covered, ?whole⟩
  case each =>
    intro tag member
    obtain ⟨front, word, rest, cut, read, rfl⟩ := Segment.exists_cut_of_mem_rawTags member
    have width : RawTag.width ⟨Position.start.past front, String.ofList word⟩ =
        Text.byteLength word := by
      rw [RawTag.width, String.toList_ofList]
    rw [width, String.toList_ofList]
    refine ⟨Template.slice?_line_parse cut (leadingTag?_flat read),
      isTagWord_of_leadingTag? read, ⟨front, rest, cut, rfl⟩, ?_⟩
    rintro other isWord ⟨front', back, cut', same⟩
    have sameFront := Position.eq_of_past_eq (cut'.symm.trans cut) same
    subst sameFront
    have sameRest : other ++ back = word ++ rest := List.append_cancel_left (cut'.symm.trans cut)
    obtain ⟨longer, more, read', isPrefix⟩ := leadingTag?_of_isTagWord isWord back
    rw [sameRest, read] at read'
    cases read'
    exact isPrefix
  case ordered => exact Segment.pairwise_rawTags .start source.toList
  case covered =>
    rintro p word isWord ⟨front, back, cut, rfl⟩
    exact Segment.exists_rawTag_of_word isWord cut
  case whole =>
    have cut : source.toList = [] ++ ([] ++ source.toList) := rfl
    exact Template.interleaved_eq cut

end Stencil
