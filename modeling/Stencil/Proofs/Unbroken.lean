import Stencil.Proofs.Chronology
import Stencil.Proofs.Faces
import Stencil.Proofs.LineNumbers
import Stencil.Proofs.Markup
import Stencil.Proofs.PlainNames

/-!
Lines of output that are no lines.

An output is a list of lines, and its text joins them with line ends. A reader of the text finds
the lines again if none of them has a line end inside. What is copied from the source has none,
and the text of a path has none either, for the keys of a scope are written in tags, which lie on
one line. So all of it comes from the data or from the placeholder, and `render_unbroken_iff` says
that lines are broken by these alone: by a value with a line end that is shown, or by a
placeholder with one where it stands in for a value.
-/

namespace Stencil

/-! ## Copied lines -/

namespace Text

theorem suffix_of_dropBytes? {n : Nat} {cs back : List Char} (h : dropBytes? n cs = some back) :
    back <:+ cs := by
  induction cs generalizing n with
  | nil =>
    unfold dropBytes? at h
    split at h
    · cases h
      exact List.suffix_refl _
    · cases h
  | cons c cs ih =>
    unfold dropBytes? at h
    split at h
    · cases h
      exact List.suffix_refl _
    · split at h
      · cases h
      · exact (ih h).trans (List.suffix_cons c cs)

theorem prefix_of_takeBytes? {n : Nat} {cs front : List Char} (h : takeBytes? n cs = some front) :
    front <+: cs := by
  induction cs generalizing n front with
  | nil =>
    unfold takeBytes? at h
    split at h
    · cases h
      exact List.prefix_refl _
    · cases h
  | cons c cs ih =>
    unfold takeBytes? at h
    split at h
    · cases h
      exact List.nil_prefix
    · split at h
      · cases h
      · obtain ⟨rest, taken, rfl⟩ := Option.map_eq_some_iff.1 h
        exact List.cons_prefix_cons.2 ⟨rfl, ih taken⟩

/-- A slice of a text is made of its characters. -/
theorem mem_of_mem_slice? {cs : List Char} {start stop : Nat} {c : Char}
    (h : c ∈ (slice? cs start stop).getD []) : c ∈ cs := by
  cases found : slice? cs start stop with
  | none =>
    rw [found] at h
    cases h
  | some slice =>
    rw [found] at h
    unfold slice? at found
    split at found
    · cases found
    · obtain ⟨back, dropped, taken⟩ := Option.bind_eq_some_iff.1 found
      exact (suffix_of_dropBytes? dropped).mem ((prefix_of_takeBytes? taken).mem h)

end Text

theorem Template.lineEnd_notMem_line (source : String) (index : Nat) :
    '\n' ∉ (parse source).line index := by
  intro member
  rw [line, line?_parse] at member
  cases found : (Text.lines source.toList)[index]? with
  | none =>
    rw [found] at member
    cases member
  | some line =>
    rw [found] at member
    exact Text.notMem_of_mem_split (List.mem_of_getElem? found) member

/-- A line end that is copied starts a line, whatever the places to copy between. -/
theorem Rendering.lineEnd_notMem_copySource (source : String) (start stop : Position) :
    .char '\n' ∉ glyphs (copySource (.parse source) start stop) := by
  have flat (index : Nat) : .char '\n' ∉ glyphs
      [.text (String.ofList (lineSlice (.parse source) start stop index))] := by
    intro member
    rw [glyphs_text_cons, glyphs_nil, List.append_nil, String.toList_ofList] at member
    obtain ⟨c, inside, same⟩ := List.mem_map.1 member
    cases same
    exact Template.lineEnd_notMem_line source index (Text.mem_of_mem_slice? inside)
  intro member
  unfold copySource at member
  split at member
  · cases member
  · rw [glyphs_flatMap] at member
    obtain ⟨index, -, inside⟩ := List.mem_flatMap.1 member
    dsimp only at inside
    split at inside
    · exact flat index inside
    · rw [glyphs_newLine_cons] at inside
      rcases List.mem_cons.1 inside with other | later
      · cases other
      · exact flat index later

/-! ## Inserted texts -/

namespace Html

theorem lineEnd_mem_escapeChar_iff (c : Char) : '\n' ∈ escapeChar c ↔ c = '\n' := by
  unfold escapeChar
  split
  · rename_i entity found
    have noEnd : '\n' ∉ entity.toList ∧ c ≠ '\n' := by
      unfold entity? at found
      split at found <;> cases found <;> decide
    exact iff_of_false noEnd.1 noEnd.2
  · rw [List.mem_singleton, eq_comm]

/-- Escaping keeps line ends, and makes none. -/
theorem lineEnd_mem_escape_iff (text : String) : '\n' ∈ (escape text).toList ↔ '\n' ∈ text.toList := by
  rw [toList_escape, escapeChars, List.mem_flatMap]
  constructor
  · rintro ⟨c, member, inside⟩
    rwa [← (lineEnd_mem_escapeChar_iff c).1 inside]
  · exact fun member => ⟨'\n', member, (lineEnd_mem_escapeChar_iff '\n').2 rfl⟩

end Html

/-- A path whose text has no line end. -/
def Path.OneLine (p : Path) : Prop := ∀ step ∈ p, '\n' ∉ step.text.toList

namespace Path.OneLine

theorem append {p q : Path} (h : p.OneLine) (k : q.OneLine) : Path.OneLine (p ++ q) := by
  intro step member
  rcases List.mem_append.1 member with early | late
  · exact h step early
  · exact k step late

theorem text {p : Path} (h : p.OneLine) : '\n' ∉ p.text.toList := by
  intro member
  rcases Text.mem_toList_intercalate member with dot | ⟨part, isPart, inside⟩
  · exact absurd dot (by decide)
  · obtain ⟨step, isStep, rfl⟩ := List.mem_map.1 isPart
    exact h step isStep inside

theorem index (i : Nat) : '\n' ∉ (Step.index i).text.toList := by
  intro member
  have digit := Text.isDigit_of_mem_toString (n := i) member
  cases digit

theorem parse {name : String} (flat : '\n' ∉ name.toList) : (Path.parse name).OneLine := by
  intro step member inside
  obtain ⟨segment, isSegment, rfl⟩ := List.mem_map.1 member
  rcases Step.mem_text_ofSegment inside with written | digit
  · exact flat (mem_of_mem_segments isSegment written)
  · cases digit

end Path.OneLine

/-- Names without line ends lead to paths without line ends. -/
theorem territory_oneLine {names : List String} (flat : ∀ name ∈ names, '\n' ∉ name.toList) (s : Store) :
    Territory names s Path.OneLine where
  root := nofun
  take h length := fun step member => h step (List.mem_of_mem_take member)
  name h _ named := h.append (.parse (flat _ named))
  asked h name named asks := by
    have oneLine := Path.OneLine.parse (flat _ named)
    refine h.append fun step member inside => ?_
    obtain ⟨whole, isStep, isPart⟩ := asks.exists_step member
    exact oneLine whole isStep (isPart.mem inside)
  pass h _ _ _ i := h.append (List.forall_mem_singleton.2 (Path.OneLine.index i))

/-! ## Events within a territory -/

/-- A render does not leave a territory of the names of its template: what it looks up for a
variable is one of them, in a scope inside. -/
theorem Rendering.inside_of_insert {r : Rendering} {names : List String} {inside : Path → Prop}
    (territory : Territory names r.store inside)
    (named : ∀ tag ∈ r.template.outline.tags, tag.name ∈ names) {tag : Tag} {scope : Path}
    {passes : List Pass} (inserted : .insert tag scope passes ∈ r.events) :
    tag.name ∈ names ∧ inside scope := by
  have kept : r.Kept fun outline scope _ =>
      (∀ tag ∈ outline.tags, tag.name ∈ names) ∧ inside scope := by
    constructor
    case pass =>
      intro tag body rest outer inner number passes ⟨ofTags, here⟩ isPass
      have isScope : inner ∈ r.sectionScopes tag outer :=
        List.mem_of_getElem? (List.mk_mem_zipIdx_iff_getElem?.1 isPass)
      rw [Outline.tags, List.forall_mem_cons, List.forall_mem_append] at ofTags
      exact ⟨ofTags.2.1, inside_of_mem_sectionScopes territory here ofTags.1 isScope⟩
    case rest =>
      intro tag body rest scope passes ⟨ofTags, here⟩
      rw [Outline.tags, List.forall_mem_cons, List.forall_mem_append] at ofTags
      exact ⟨ofTags.2.2, here⟩
  obtain ⟨-, body, rest, ofTags, here⟩ := kept.events ⟨named, territory.root⟩ _ inserted
  exact ⟨ofTags tag List.mem_cons_self, here⟩

/-- The name of a tag lies on one line. -/
theorem Template.lineEnd_notMem_name {source : String} {tag : Tag}
    (h : tag ∈ (parse source).outline.tags) : '\n' ∉ tag.name.toList := by
  have scanned : tag ∈ (scan source).map RawTag.tag := (Outline.tags_ofTags (scan source)) ▸ h
  obtain ⟨raw, member, rfl⟩ := List.mem_map.1 scanned
  rw [← Segment.rawTags_cut] at member
  obtain ⟨front, word, rest, -, read, rfl⟩ := Segment.exists_cut_of_mem_rawTags member
  intro written
  have inWord := RawTag.mem_text_of_mem_name written
  rw [String.toList_ofList] at inWord
  exact leadingTag?_flat read inWord

/-! ## Broken lines -/

namespace Rendering

variable {r : Rendering}

/-- Whether a line end is shown for a variable: it is in the value, or in the placeholder that
stands in for a value. -/
def BreaksLine (r : Rendering) (tag : Tag) (scope : Path) : Prop :=
  match r.store.resolve scope tag.name with
  | .ok (.found _ (.scalar text)) => '\n' ∈ text.toList
  | .ok (.pathText _) => False
  | _ => '\n' ∈ r.options.placeholder.toList

theorem lineEnd_mem_variableText_iff {tag : Tag} {scope : Path} (here : scope.OneLine)
    (flat : '\n' ∉ tag.name.toList) :
    '\n' ∈ (r.variableText tag scope).toList ↔ r.BreaksLine tag scope := by
  have territory := territory_oneLine (List.forall_mem_singleton.2 flat) r.store
  unfold variableText BreaksLine
  cases resolved : r.store.resolve scope tag.name with
  | error e => rfl
  | ok resolution =>
    cases resolution with
    | pathText path =>
      obtain ⟨oneLine, -⟩ :=
        Store.inside_of_resolve territory here (List.mem_singleton_self _) resolved
      exact iff_of_false oneLine.text id
    | found path value =>
      cases value with
      | scalar text =>
        dsimp only
        split
        · exact Html.lineEnd_mem_escape_iff text
        · rfl
      | list items => rfl
      | mapping entries => rfl

/-- A line end in the middle of a line was put in for a variable. -/
theorem lineEnd_mem_glyphs_iff {source : String} (parsed : r.template = .parse source) :
    .char '\n' ∈ glyphs r.pieces ↔
      ∃ tag scope passes, .insert tag scope passes ∈ r.events ∧ r.BreaksLine tag scope := by
  have named : ∀ tag ∈ r.template.outline.tags, tag.name ∈ r.template.outline.tags.map (·.name) :=
    fun tag member => List.mem_map_of_mem member
  have flat : ∀ name ∈ r.template.outline.tags.map (·.name), '\n' ∉ name.toList := by
    intro name member
    obtain ⟨tag, isTag, rfl⟩ := List.mem_map.1 member
    rw [parsed] at isTag
    exact Template.lineEnd_notMem_name isTag
  have breaks {tag : Tag} {scope : Path} {passes : List Pass}
      (inserted : .insert tag scope passes ∈ r.events) :
      .char '\n' ∈ glyphs (r.output (.insert tag scope passes)) ↔ r.BreaksLine tag scope := by
    obtain ⟨isName, oneLine⟩ := inside_of_insert (territory_oneLine flat r.store) named inserted
    rw [← lineEnd_mem_variableText_iff oneLine (flat _ isName)]
    simp [output]
  rw [← flatMap_output_events, glyphs_flatMap, List.mem_flatMap]
  constructor
  · rintro ⟨event, member, shown⟩
    cases event with
    | enter chunk => cases shown
    | copy start stop =>
      rw [output, parsed] at shown
      exact absurd shown (lineEnd_notMem_copySource source start stop)
    | insert tag scope passes => exact ⟨tag, scope, passes, member, (breaks member).1 shown⟩
  · rintro ⟨tag, scope, passes, member, broken⟩
    exact ⟨_, member, (breaks member).2 broken⟩

end Rendering

/-- The lines of an output are unbroken if the text that it begins with and its pieces are. -/
theorem OutputLine.lineEnd_notMem_ofPieces_iff (sourceLine : Nat) (text : String) (pieces : List Piece) :
    (∀ line ∈ ofPieces sourceLine text pieces, '\n' ∉ line.text.toList) ↔
      '\n' ∉ text.toList ∧ .char '\n' ∉ glyphs pieces := by
  induction pieces generalizing sourceLine text with
  | nil => simp [ofPieces]
  | cons piece pieces ih =>
    cases piece with
    | text content =>
      rw [ofPieces, ih]
      simp [and_assoc]
    | newLine next =>
      rw [ofPieces, List.forall_mem_cons, ih]
      simp

namespace Rendered

variable {r : Rendered}

/-- The number in front of a line has no line end. -/
theorem lineEnd_notMem_lines_iff :
    (∀ line ∈ r.lines, '\n' ∉ line.toList) ↔ ∀ line ∈ r.outputLines, '\n' ∉ line.text.toList := by
  have flat (n : Nat) : '\n' ∉ (toString n ++ " | ").toList := by
    rw [String.toList_append, List.mem_append, not_or]
    refine ⟨fun member => ?_, by decide⟩
    cases Text.isDigit_of_mem_toString member
  rw [lines, List.forall_mem_map]
  refine forall₂_congr fun line _ => ?_
  split
  · change '\n' ∉ (toString line.sourceLine ++ " | " ++ line.text).toList ↔ _
    rw [String.toList_append, List.mem_append, not_or]
    exact and_iff_right (flat line.sourceLine)
  · rfl

/-- The lines of an output are found in its text if they are unbroken. -/
theorem splitString_text_iff (some : r.outputLines ≠ []) :
    Text.splitString '\n' r.text = r.lines ↔ ∀ line ∈ r.lines, '\n' ∉ line.toList := by
  constructor
  · intro same line member
    rw [← same] at member
    obtain ⟨part, isPart, rfl⟩ := List.mem_map.1 member
    rw [String.toList_ofList]
    exact Text.notMem_of_mem_split isPart
  · refine Text.splitString_intercalate rfl ?_
    rw [lines]
    exact mt List.map_eq_nil_iff.1 some

end Rendered

/-- When lines of output are lines. No line has a line end inside, and the text is split into the
lines again at its line ends, exactly if no line end is shown for a variable. Then, with line
numbers, each line of the text begins with the number of a source line. -/
theorem render_unbroken_iff (source : String) (store : Store) (options : Options) :
    let t := Template.parse source
    let r : Rendering := ⟨t, store, options⟩
    let rendered := t.render store options
    let unbroken := ∀ tag scope passes, .insert tag scope passes ∈ r.events → ¬ r.BreaksLine tag scope
    r.events.flatMap r.output = r.pieces ∧
    ((∀ line ∈ rendered.lines, '\n' ∉ line.toList) ↔ unbroken) ∧
    (Text.splitString '\n' rendered.text = rendered.lines ↔ unbroken) ∧
    (options.lineNumbers = true → unbroken →
      ∀ line ∈ Text.splitString '\n' rendered.text,
        ∃ number < t.lineCount, ∃ text : String, line = s!"{number} | {text}") := by
  intro t r rendered unbroken
  have shown : rendered.outputLines = OutputLine.ofPieces 0 "" r.pieces := rfl
  have lines : (∀ line ∈ rendered.lines, '\n' ∉ line.toList) ↔ unbroken := by
    have parsed : r.template = .parse source := rfl
    have ofPieces := OutputLine.lineEnd_notMem_ofPieces_iff 0 "" r.pieces
    rw [and_iff_right (show '\n' ∉ "".toList by decide), Rendering.lineEnd_mem_glyphs_iff parsed]
      at ofPieces
    rw [Rendered.lineEnd_notMem_lines_iff, shown]
    refine ofPieces.trans ?_
    simp only [not_exists, not_and]
    rfl
  have some : rendered.outputLines ≠ [] := by
    rw [shown]
    exact OutputLine.ofPieces_ne_nil 0 "" r.pieces
  have split : Text.splitString '\n' rendered.text = rendered.lines ↔ unbroken :=
    (Rendered.splitString_text_iff some).trans lines
  refine ⟨Rendering.flatMap_output_events r, lines, split, ?_⟩
  intro numbered intact line member
  rw [split.2 intact, Rendered.lines] at member
  obtain ⟨outputLine, isLine, rfl⟩ := List.mem_map.1 member
  exact ⟨outputLine.sourceLine, sourceLine_lt_lineCount isLine, outputLine.text, if_pos numbered⟩

/-- A value and the text of a path below a repeated line end: `{{#hosts}}` and
`{{name}} {{ip_path}}{{/hosts}}` on two lines. -/
theorem render_unbroken_iff_hosts :
    let source := "\x7b\x7b#hosts\x7d\x7d\n\x7b\x7bname\x7d\x7d \x7b\x7bip_path\x7d\x7d\x7b\x7b/hosts\x7d\x7d"
    let t := Template.parse source
    let store : Store := ⟨.mapping [("hosts",
      .list [.mapping [("name", .scalar "a")], .mapping [("name", .scalar "b")]])]⟩
    let options : Options := { lineNumbers := true }
    let r : Rendering := ⟨t, store, options⟩
    let rendered := t.render store options
    options.lineNumbers = true ∧
      (∀ tag scope passes, .insert tag scope passes ∈ r.events → ¬ r.BreaksLine tag scope) ∧
      rendered.lines = ["0 | ", "1 | a hosts.0.ip", "1 | b hosts.1.ip"] ∧
      Text.splitString '\n' rendered.text = rendered.lines ∧
      ∀ line ∈ Text.splitString '\n' rendered.text,
        ∃ number < t.lineCount, ∃ text : String, line = s!"{number} | {text}" := by
  intro source t store options r rendered
  have lines : rendered.lines = ["0 | ", "1 | a hosts.0.ip", "1 | b hosts.1.ip"] := by decide +kernel
  obtain ⟨-, whole, split, numbered⟩ := render_unbroken_iff source store options
  have unbroken := whole.1 (by decide +kernel)
  exact ⟨rfl, unbroken, lines, split.2 unbroken, numbered rfl unbroken⟩

/-- A line end in a value is enough for a line without a number. The source is `{{x}}`. -/
theorem not_render_unbroken :
    ¬ ∀ (source : String) (store : Store) (options : Options), options.lineNumbers = true →
      let rendered := (Template.parse source).render store options
      (∀ line ∈ rendered.lines, '\n' ∉ line.toList) ∧
        Text.splitString '\n' rendered.text = rendered.lines ∧
        ∀ line ∈ Text.splitString '\n' rendered.text,
          ∃ (number : Nat) (text : String), line = s!"{number} | {text}" := by
  intro always
  obtain ⟨whole, -, -⟩ := always "\x7b\x7bx\x7d\x7d" ⟨.mapping [("x", .scalar "a\nb")]⟩
    { lineNumbers := true } rfl
  have broken : "0 | a\nb" ∈ ((Template.parse "\x7b\x7bx\x7d\x7d").render
      ⟨.mapping [("x", .scalar "a\nb")]⟩ { lineNumbers := true }).lines := by decide +kernel
  exact whole _ broken (by decide)

end Stencil
