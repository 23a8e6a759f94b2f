import Stencil.Proofs.Dotted
import Stencil.Proofs.Lookup
import Stencil.Proofs.Walk

/-!
Data cannot bring markup into a page.

Text is `Plain` if none of its characters can start or end a tag or an attribute. Escaped
text is plain. Paths are shown without being escaped, but the keys of a scope are written
in the names of tags, so all scopes of a plain template are plain, at any depth and for
any data. `render_plain` puts this together for the whole output of a render.
-/

namespace Stencil

/-! ## Escaped text -/

namespace Html

/-- The characters that can start or end a tag or an attribute. -/
def isMarkup (c : Char) : Bool := c = '<' || c = '>' || c = '"' || c = '\''

/-- Text without such characters. -/
def Plain (cs : List Char) : Prop := ∀ c ∈ cs, isMarkup c = false

instance (cs : List Char) : Decidable (Plain cs) :=
  List.decidableBAll (fun c => isMarkup c = false) cs

theorem isMarkup_iff {c : Char} :
    isMarkup c = true ↔ c = '<' ∨ c = '>' ∨ c = '"' ∨ c = '\'' := by
  simp [isMarkup, or_assoc]

/-- What has no entity is no markup. -/
theorem isMarkup_of_entity?_eq_none {c : Char} (h : entity? c = none) : isMarkup c = false := by
  apply Bool.eq_false_iff.2
  intro markup
  rcases isMarkup_iff.1 markup with rfl | rfl | rfl | rfl <;> cases h

theorem plain_toString (n : Nat) : Plain (toString n).toList := by
  intro c member
  have digit := Text.isDigit_of_mem_toString member
  apply Bool.eq_false_iff.2
  intro markup
  rcases isMarkup_iff.1 markup with rfl | rfl | rfl | rfl <;> cases digit

theorem plain_entity {c : Char} {entity : String} (h : entity? c = some entity) :
    Plain entity.toList := by
  unfold entity? at h
  split at h <;> cases h <;> decide

theorem plain_escapeChar (c : Char) : Plain (escapeChar c) := by
  unfold escapeChar
  split
  · exact plain_entity ‹_›
  · intro d member
    rw [List.mem_singleton.1 member]
    exact isMarkup_of_entity?_eq_none ‹_›

/-- The characters that are looked for are those that have an entity. -/
theorem mem_specialChars_iff {c : Char} : c ∈ specialChars ↔ (entity? c).isSome = true := by
  constructor
  · intro member
    simp only [specialChars, List.mem_cons, List.not_mem_nil, or_false] at member
    rcases member with rfl | rfl | rfl | rfl | rfl <;> rfl
  · intro known
    unfold entity? at known
    split at known
    case h_6 => cases known
    all_goals decide

/-- The shortcut for text without special characters changes nothing. -/
theorem toList_escape (text : String) : (escape text).toList = escapeChars text.toList := by
  unfold escape
  split
  · rw [String.toList_ofList]
  · rename_i none
    have single : ∀ c ∈ text.toList, escapeChar c = [c] := by
      intro c member
      have noEntity : entity? c = Option.none := by
        by_contra some
        have special := mem_specialChars_iff.2 (Option.isSome_iff_ne_none.2 some)
        exact none (List.any_eq_true.2 ⟨c, member, List.contains_iff_mem.2 special⟩)
      rw [escapeChar, noEntity]
    rw [escapeChars, List.flatMap_congr single, List.flatMap_singleton']

theorem plain_escape (text : String) : Plain (escape text).toList := by
  rw [toList_escape]
  intro c member
  obtain ⟨d, -, inside⟩ := List.mem_flatMap.1 member
  exact plain_escapeChar d c inside

end Html

open Html (Plain)

/-! ## Scopes -/

/-- A path whose keys are plain. -/
def Path.Plain (p : Path) : Prop := ∀ name, .key name ∈ p → Html.Plain name.toList

namespace Path

theorem plain_nil : Path.Plain [] := by
  rintro name ⟨⟩

theorem Plain.append {p q : Path} (h : p.Plain) (k : q.Plain) : (p ++ q).Plain := by
  intro name member
  rcases List.mem_append.1 member with early | late
  · exact h name early
  · exact k name late

theorem Plain.take {p : Path} (h : p.Plain) (length : Nat) : Path.Plain (p.take length) :=
  fun name member => h name (List.mem_of_mem_take member)

theorem Plain.withIndex {p : Path} (h : p.Plain) (i : Nat) : (p.withIndex i).Plain := by
  apply h.append
  intro name member
  cases List.mem_singleton.1 member

theorem plain_parse {name : String} (h : Html.Plain name.toList) : (Path.parse name).Plain :=
  fun _ member c inside => h c (mem_of_mem_segments (mem_segments_of_mem_parse member) inside)

/-- The text of a plain path is plain. -/
theorem Plain.text {p : Path} (h : p.Plain) : Html.Plain p.text.toList := by
  intro c member
  rcases Text.mem_toList_intercalate member with dot | ⟨part, isPart, inside⟩
  · rw [List.mem_singleton.1 dot]
    decide
  · obtain ⟨step, isStep, rfl⟩ := List.mem_map.1 isPart
    cases step with
    | key name => exact h name isStep c inside
    | index i => exact Html.plain_toString i c inside

end Path

/-- Whatever a name stands for in a plain scope has a plain path. -/
theorem Store.plain_path_of_resolve {s : Store} {scope : Path} {name : String}
    {resolution : Resolution} (h : s.resolve scope name = .ok resolution) (plainScope : scope.Plain)
    (plainName : Plain name.toList) : resolution.path.Plain := by
  have plainSteps := Path.plain_parse plainName
  cases resolution with
  | found path value =>
    obtain ⟨p, _, -, -, -, ⟨⟩⟩ :=
      (firstHit?_eq_some_iff s scope _ _).1 (resolve_eq_found_iff.1 h)
    exact (plainScope.take p).append plainSteps
  | pathText path =>
    obtain ⟨-, rest, asked, rfl⟩ := resolve_eq_pathText_iff.1 h
    have asks := (withoutPathSuffix?_eq_some_iff _ _).1 asked
    apply plainScope.append
    intro key member c inside
    obtain ⟨whole, isStep, isPart⟩ := asks.exists_step member
    have written := isPart.mem inside
    cases whole with
    | key name => exact plainSteps name isStep c written
    | index i => exact Html.plain_toString i c written

theorem Resolution.plain_passScope {resolution : Resolution} (h : resolution.path.Plain)
    (pass : Nat) : (resolution.passScope pass).Plain := by
  cases resolution with
  | pathText path => exact h
  | found path value =>
    have plainPath : path.Plain := h
    simp only [passScope]
    split
    · exact plainPath.withIndex pass
    · exact plainPath

/-! ## Names of tags -/

theorem Text.mem_of_mem_dropPrefix? {start cs : List Char} {c : Char}
    (h : c ∈ (dropPrefix? start cs).getD cs) : c ∈ cs := by
  rcases dropped : dropPrefix? start cs with _ | rest
  · rwa [dropped] at h
  · rw [dropped] at h
    rw [eq_append_of_dropPrefix? dropped]
    exact List.mem_append_right _ h

theorem Text.mem_of_mem_dropSuffix? {stop cs : List Char} {c : Char}
    (h : c ∈ (dropSuffix? stop cs).getD cs) : c ∈ cs := by
  rcases dropped : dropSuffix? stop cs with _ | rest
  · rwa [dropped] at h
  · rw [dropped] at h
    rw [eq_append_of_dropSuffix? dropped]
    exact List.mem_append_left _ h

/-- The name of a tag is written in the tag. -/
theorem RawTag.mem_text_of_mem_name {t : RawTag} {c : Char} (h : c ∈ t.parts.name.toList) :
    c ∈ t.text.toList := by
  have ofInside : c ∈ t.inside → c ∈ t.text.toList := by
    intro inside
    unfold RawTag.inside at inside
    exact Text.mem_of_mem_dropPrefix? (Text.mem_of_mem_dropSuffix? inside)
  apply ofInside
  unfold RawTag.parts at h
  dsimp only at h
  split at h
  · rw [String.toList_ofList] at h
    exact Text.mem_of_mem_dropPrefix? (Text.mem_of_mem_dropSuffix? (List.mem_of_mem_tail h))
  · rw [String.toList_ofList] at h
    exact Text.mem_of_mem_dropPrefix? (Text.mem_of_mem_dropSuffix? h)

namespace Segment

theorem mem_word_of_mem_name {word : List Char} {c : Char} (h : c ∈ (parts word).name.toList) :
    c ∈ word := by
  rw [← parts_rawTag .start word] at h
  have written := RawTag.mem_text_of_mem_name h
  rwa [String.toList_ofList] at written

theorem mem_of_mem_placed {p q : Position} {segment : Segment Char}
    {segments : List (Segment Char)} (h : (q, segment) ∈ placed p segments) :
    segment ∈ segments := by
  obtain ⟨front, back, rfl, -⟩ := exists_of_mem_placed h
  exact List.mem_append_right _ List.mem_cons_self

/-- A segment that shows plain text, or whose value is escaped. -/
def Plain : Segment Glyph → Prop
  | literal g => Html.isMarkup g.shown = false
  | tag word => (parts word).raw = false ∧ Html.Plain word

/-- The segments of a plain source without raw tags are plain. -/
theorem plain_of_mem_marked {source : String} (plainSource : Html.Plain source.toList)
    (escaped : ∀ t ∈ scan source, t.parts.raw = false) {segment : Segment Glyph}
    (h : segment ∈ marked .start (cut source.toList)) : segment.Plain := by
  obtain ⟨⟨q, unmarked⟩, place, rfl⟩ := List.mem_map.1 h
  have member := mem_of_mem_placed place
  have ofSource : ∀ c ∈ unmarked.chars, Html.isMarkup c = false := by
    intro c inside
    apply plainSource
    rw [← flatMap_chars_cut source.toList]
    exact List.mem_flatMap.2 ⟨unmarked, member, inside⟩
  cases unmarked with
  | literal c =>
    have shown : (q.glyph c).shown = c := shown_glyph q c
    rw [mark, Plain, shown]
    exact ofSource c List.mem_cons_self
  | tag word =>
    refine ⟨?_, ofSource⟩
    have scanned : ⟨q, String.ofList word⟩ ∈ scan source := by
      rw [← rawTags_cut source]
      exact List.mem_filterMap.2 ⟨(q, tag word), place, rfl⟩
    rw [← parts_rawTag q word]
    exact escaped _ scanned

end Segment

/-! ## Passages -/

namespace Passage

/-- A passage of plain text and names, in which every value is escaped. -/
def Plain : Passage Glyph → Prop
  | nil => True
  | literal g rest => Html.isMarkup g.shown = false ∧ rest.Plain
  | value name raw rest => raw = false ∧ Html.Plain name.toList ∧ rest.Plain
  | repeated name body rest => Html.Plain name.toList ∧ body.Plain ∧ rest.Plain
  | inverted name body rest => Html.Plain name.toList ∧ body.Plain ∧ rest.Plain

theorem plain_enclose {name : String} {body rest : Passage Glyph} (h : Html.Plain name.toList)
    (plainBody : body.Plain) (plainRest : rest.Plain) (sigil : Sigil) :
    (enclose sigil name body rest).Plain := by
  unfold enclose
  split <;> exact ⟨h, plainBody, plainRest⟩

theorem plain_nest {segments : List (Segment Glyph)} (h : ∀ s ∈ segments, s.Plain) :
    (nest segments).Plain := by
  have plainName : ∀ word, Segment.Plain (.tag word) →
      Html.Plain (Segment.parts word).name.toList :=
    fun word plain c inside => plain.2 c (Segment.mem_word_of_mem_name inside)
  fun_induction nest segments with
  | case1 => trivial
  | case2 a rest ih =>
    obtain ⟨here, later⟩ := List.forall_mem_cons.1 h
    exact ⟨here, ih later⟩
  | case3 word rest hsigil ih =>
    obtain ⟨here, later⟩ := List.forall_mem_cons.1 h
    exact ⟨here.1, plainName word here, ih later⟩
  | case4 word rest hsigil ih => exact ih (List.forall_mem_cons.1 h).2
  | case5 word rest sigil opens hsigil body found ih =>
    obtain ⟨here, later⟩ := List.forall_mem_cons.1 h
    rw [← upToClose_none found] at later
    have plainNil : Plain nil := trivial
    exact plain_enclose (plainName word here) (ih later) plainNil sigil
  | case6 word rest sigil opens hsigil body close after found ihBody ihAfter =>
    obtain ⟨here, later⟩ := List.forall_mem_cons.1 h
    rw [(upToClose_some found).1] at later
    have plainBody := ihBody fun s member => later s (List.mem_append_left _ member)
    have plainAfter := ihAfter fun s member =>
      later s (List.mem_append_right _ (.tail _ member))
    exact plain_enclose (plainName word here) plainBody plainAfter sigil

variable {store : Store} {options : Options}

/-- What is shown for a variable whose value is escaped. -/
theorem plain_variableMeaning (escaped : options.escapeHtml = true)
    (placeholder : Html.Plain options.placeholder.toList) {name : String}
    (plainName : Html.Plain name.toList) {scope : Path} (plainScope : scope.Plain) :
    Html.Plain (variableMeaning store options name false scope).toList := by
  unfold variableMeaning
  split
  · rw [escaped]
    exact Html.plain_escape _
  · exact (Store.plain_path_of_resolve ‹_› plainScope plainName).text
  · exact placeholder

/-- A plain passage has a plain meaning, whatever the data: its names lead from plain
scopes to plain scopes. -/
theorem plain_meaning (escaped : options.escapeHtml = true)
    (placeholder : Html.Plain options.placeholder.toList) {p : Passage Glyph} (h : p.Plain)
    {scope : Path} (plainScope : scope.Plain) :
    ∀ g ∈ p.meaning store options .char scope, Html.isMarkup g.shown = false := by
  induction p generalizing scope with
  | nil => rintro g ⟨⟩
  | literal a rest ih =>
    intro g member
    rcases List.mem_cons.1 member with rfl | later
    · exact h.1
    · exact ih h.2 plainScope g later
  | value name raw rest ih =>
    obtain ⟨rfl, plainName, plainRest⟩ := h
    intro g member
    rcases List.mem_append.1 member with here | later
    · obtain ⟨c, inside, rfl⟩ := List.mem_map.1 here
      exact plain_variableMeaning escaped placeholder plainName plainScope c inside
    · exact ih plainRest plainScope g later
  | repeated name body rest ihBody ihRest =>
    obtain ⟨plainName, plainBody, plainRest⟩ := h
    intro g member
    rcases List.mem_append.1 member with here | later
    · split at here
      · obtain ⟨pass, -, inside⟩ := List.mem_flatMap.1 here
        have plainPath := Store.plain_path_of_resolve ‹_› plainScope plainName
        exact ihBody plainBody (Resolution.plain_passScope plainPath pass) g inside
      · cases here
    · exact ihRest plainRest plainScope g later
  | inverted name body rest ihBody ihRest =>
    obtain ⟨plainName, plainBody, plainRest⟩ := h
    intro g member
    rcases List.mem_append.1 member with here | later
    · split at here
      · split at here
        · exact ihBody plainBody (Store.plain_path_of_resolve ‹_› plainScope plainName) g here
        · cases here
      · exact ihBody plainBody plainScope g here
    · exact ihRest plainRest plainScope g later

end Passage

/-! ## The output -/

/-- Data cannot bring markup into a page: with escaping, the output of a plain template
without raw tags is plain for every store, with and without line numbers. -/
theorem render_plain (source : String) (store : Store) (options : Options)
    (escaped : options.escapeHtml = true) (plainSource : Html.Plain source.toList)
    (noRaw : ∀ t ∈ scan source, t.parts.raw = false)
    (placeholder : Html.Plain options.placeholder.toList) :
    Html.Plain ((Template.parse source).render store options).text.toList := by
  have plainPassage := Passage.plain_nest fun _ member =>
    Segment.plain_of_mem_marked plainSource noRaw member
  intro c member
  rw [Template.render] at member
  rcases Rendered.mem_toList_text member with ⟨g, shown, rfl⟩ | rfl | ⟨number, digit | bar⟩
  · rw [Rendering.glyphs_pieces] at shown
    exact Passage.plain_meaning escaped placeholder plainPassage Path.plain_nil g shown
  · decide
  · exact Html.plain_toString number c digit
  · have plainBar : Html.Plain " | ".toList := by decide
    exact plainBar c bar

/-- Markup in a value and in a key below a list, and the text of a path: the second line
is `{{name}} at {{ip_path}}; {{/hosts}}`. -/
theorem render_plain_hosts :
    let source := "\x7b\x7b#hosts\x7d\x7d\n\x7b\x7bname\x7d\x7d at \x7b\x7bip_path\x7d\x7d; \x7b\x7b/hosts\x7d\x7d"
    let store : Store := ⟨.mapping [("hosts", .list
      [.mapping [("name", .scalar "<b onclick='x'>"), ("<key>", .scalar "\"")]])]⟩
    let options : Options := { escapeHtml := true, lineNumbers := true }
    options.escapeHtml = true ∧ Html.Plain source.toList ∧
      (∀ t ∈ scan source, t.parts.raw = false) ∧ Html.Plain options.placeholder.toList ∧
      Html.Plain ((Template.parse source).render store options).text.toList ∧
      ((Template.parse source).render store options).text =
        "0 | \n1 | &lt;b onclick=&#39;x&#39;&gt; at hosts.0.ip; " := by
  intro source store options
  have plainSource : Html.Plain source.toList := by decide +kernel
  have noRaw : ∀ t ∈ scan source, t.parts.raw = false := by decide +kernel
  have placeholder : Html.Plain options.placeholder.toList := by decide
  exact ⟨rfl, plainSource, noRaw, placeholder,
    render_plain source store options rfl plainSource noRaw placeholder, by decide +kernel⟩

end Stencil
