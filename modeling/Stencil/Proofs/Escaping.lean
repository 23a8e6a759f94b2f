import Mathlib.Data.List.Basic
import Stencil.Proofs.Brackets
import Stencil.Proofs.Markup

/-!
Escaping before and after a render.

A render may escape each text that it shows. The data could as well have been escaped before:
`Template.render_escaped` says that the page is the same. The texts of a store also decide which
sections are shown, so this rests on `isFalsy_escape`. Where a name leads is not a matter of
texts at all, as `Store.resolve_mapText` says for every change of texts.
-/

namespace Stencil

/-! ## Changed texts -/

namespace Value

mutual

/-- A value with each text changed, at any depth. Keys are left as they are. -/
def mapText (f : String → String) : Value → Value
  | scalar text => scalar (f text)
  | list items => list (mapTextItems f items)
  | mapping entries => mapping (mapTextEntries f entries)
termination_by structural v => v

def mapTextItems (f : String → String) : List Value → List Value
  | [] => []
  | item :: items => item.mapText f :: mapTextItems f items
termination_by structural items => items

def mapTextEntries (f : String → String) : List (String × Value) → List (String × Value)
  | [] => []
  | (key, value) :: entries => (key, value.mapText f) :: mapTextEntries f entries
termination_by structural entries => entries

end

variable (f : String → String)

theorem mapTextItems_eq_map (items : List Value) :
    mapTextItems f items = items.map (mapText f) := by
  induction items with
  | nil => rfl
  | cons item items ih => rw [mapTextItems, ih, List.map_cons]

theorem get?_mapTextEntries (key : String) (entries : List (String × Value)) :
    Fields.get? key (mapTextEntries f entries) = (Fields.get? key entries).map (mapText f) := by
  induction entries with
  | nil => rfl
  | cons entry entries ih =>
    obtain ⟨k, v⟩ := entry
    rw [mapTextEntries, Fields.get?, Fields.get?, ih]
    split <;> rfl

theorem getKey?_mapText (key : String) (v : Value) :
    (v.mapText f).getKey? key = (v.getKey? key).map (mapText f) := by
  fun_induction getKey? key v with
  | case1 text => rfl
  | case2 => rfl
  | case3 first items ih =>
    rw [mapText, mapTextItems, getKey?]
    exact ih
  | case4 entries => exact get?_mapTextEntries f key entries

theorem child?_mapText (v : Value) (step : Step) :
    (v.mapText f).child? step = (v.child? step).map (mapText f) := by
  cases step with
  | key name => exact getKey?_mapText f name v
  | index i =>
    cases v with
    | scalar text => rfl
    | list items =>
      rw [mapText, mapTextItems_eq_map]
      exact List.getElem?_map
    | mapping entries => exact get?_mapTextEntries f (toString i) entries

theorem get?_mapText (v : Value) (path : Path) :
    (v.mapText f).get? path = (v.get? path).map (mapText f) := by
  induction path generalizing v with
  | nil => rfl
  | cons step path ih =>
    rw [get?, get?, child?_mapText]
    cases v.child? step with
    | none => rfl
    | some below => exact ih below

theorem isList_mapText (v : Value) : (v.mapText f).isList = v.isList := by
  cases v <;> rfl

variable {f}

/-- How often a section is shown depends on no more of a text than whether it is falsy. -/
theorem passCount_mapText (keeps : ∀ text, isFalsy (f text) = isFalsy text) (v : Value) :
    (v.mapText f).passCount = v.passCount := by
  cases v with
  | scalar text => rw [mapText, passCount, passCount, keeps]
  | list items =>
    rw [mapText, mapTextItems_eq_map]
    exact List.length_map _
  | mapping entries => rfl

end Value

/-! ## Lookups -/

/-- What a name stands for when the texts of the store are changed. -/
def Resolution.mapText (f : String → String) : Resolution → Resolution
  | found path value => found path (value.mapText f)
  | pathText path => pathText path

theorem Resolution.path_mapText (f : String → String) (resolution : Resolution) :
    (resolution.mapText f).path = resolution.path := by
  cases resolution <;> rfl

theorem Resolution.passCount_mapText {f : String → String}
    (keeps : ∀ text, isFalsy (f text) = isFalsy text) (resolution : Resolution) :
    (resolution.mapText f).passCount = resolution.passCount := by
  cases resolution with
  | found path value => exact value.passCount_mapText keeps
  | pathText path => rfl

namespace Store

/-- A store with each text changed. -/
def mapText (f : String → String) (s : Store) : Store := ⟨s.root.mapText f⟩

variable (f : String → String) (s : Store)

theorem lookUp?_mapText (scope name : Path) (length : Nat) :
    (s.mapText f).lookUp? scope name length =
      (s.lookUp? scope name length).map (Resolution.mapText f) := by
  have found : (s.mapText f).get? (scope.prefixJoin length name) =
      (s.get? (scope.prefixJoin length name)).map (Value.mapText f) :=
    s.root.get?_mapText f _
  rw [lookUp?, lookUp?, found, Option.map_map, Option.map_map]
  rfl

/-- Names lead to the same paths, whatever the texts are. -/
theorem resolve_mapText (scope : Path) (name : String) :
    (s.mapText f).resolve scope name =
      (s.resolve scope name).map (Resolution.mapText f) := by
  have hits : (s.mapText f).firstHit? scope (.parse name) =
      (s.firstHit? scope (.parse name)).map (Resolution.mapText f) := by
    rw [firstHit?, firstHit?, List.map_findSome?]
    congr 1
    exact funext fun length => lookUp?_mapText f s scope (.parse name) length
  cases hit : s.firstHit? scope (.parse name) with
  | some resolution =>
    rw [hit] at hits
    rw [resolve_of_hit hit, resolve_of_hit hits]
    rfl
  | none =>
    rw [hit] at hits
    cases asks : withoutPathSuffix? (.parse name) with
    | none =>
      rw [resolve_of_miss hit asks, resolve_of_miss hits asks]
      rfl
    | some rest =>
      rw [resolve_of_asks hit asks, resolve_of_asks hits asks]
      rfl

end Store

/-! ## Escaped texts -/

namespace Html

/-- No falsy text has a special character. -/
theorem isFalsy_eq_false_of_mem {text : String} {c : Char} (member : c ∈ text.toList)
    (special : (entity? c).isSome = true) : isFalsy text = false := by
  apply Bool.eq_false_iff.mpr
  intro falsy
  rw [isFalsy] at falsy
  simp only [Bool.or_eq_true, decide_eq_true_eq, or_assoc] at falsy
  rcases falsy with rfl | rfl | rfl | rfl
  · cases member
  all_goals
    rw [List.mem_singleton.mp member] at special
    cases special

/-- Entities begin with an ampersand. -/
theorem ampersand_mem_escapeChar {c : Char} (special : (entity? c).isSome = true) :
    '&' ∈ escapeChar c := by
  obtain ⟨entity, found⟩ := Option.isSome_iff_exists.mp special
  rw [escapeChar, found]
  unfold entity? at found
  split at found <;> cases found <;> decide

/-- Escaping makes no text falsy, and leaves no falsy text truthy. -/
theorem isFalsy_escape (text : String) : isFalsy (escape text) = isFalsy text := by
  by_cases some : text.toList.any specialChars.contains = true
  · obtain ⟨c, member, listed⟩ := List.any_eq_true.mp some
    have special := mem_specialChars_iff.mp (List.contains_iff_mem.mp listed)
    have ampersand : '&' ∈ (escape text).toList := by
      rw [toList_escape]
      exact List.mem_flatMap.mpr ⟨c, member, ampersand_mem_escapeChar special⟩
    rw [isFalsy_eq_false_of_mem member special, isFalsy_eq_false_of_mem ampersand rfl]
  · rw [escape, if_neg some]

end Html

/-! ## Rendering -/

namespace Rendering

variable (t : Template) (s : Store) (options : Options) (tag : Tag) (scope : Path)

theorem sectionScopes_escape :
    sectionScopes ⟨t, s, { options with escapeHtml := true }⟩ tag scope =
      sectionScopes ⟨t, s.mapText Html.escape, { options with escapeHtml := false }⟩ tag scope := by
  unfold sectionScopes
  dsimp only
  rw [Store.resolve_mapText]
  cases s.resolve scope tag.name with
  | error e => rfl
  | ok resolution =>
    have count := resolution.passCount_mapText Html.isFalsy_escape
    have path := resolution.path_mapText Html.escape
    rw [Except.map]
    simp only [repeatedScopes, invertedScopes, count, path]
    cases resolution with
    | pathText path => rfl
    | found path value =>
      simp only [Resolution.mapText, Value.isList_mapText]

variable {tag} in
theorem variableText_escape (notRaw : tag.raw = false) :
    variableText ⟨t, s, { options with escapeHtml := true }⟩ tag scope =
      variableText ⟨t, s.mapText Html.escape, { options with escapeHtml := false }⟩ tag scope := by
  unfold variableText
  dsimp only
  rw [Store.resolve_mapText, notRaw]
  cases s.resolve scope tag.name with
  | error e => rfl
  | ok resolution =>
    cases resolution with
    | pathText path => rfl
    | found path value => cases value <;> rfl

/-- A stretch of a template without raw variables is shown the same, whether the texts are
escaped on the way or were before. -/
theorem walk_escape {outline : Outline}
    (notRaw : ∀ tag ∈ outline.tags, tag.isVariable = true → tag.raw = false)
    (cursor boundary : Position) :
    walk ⟨t, s, { options with escapeHtml := true }⟩ outline cursor boundary scope =
      walk ⟨t, s.mapText Html.escape, { options with escapeHtml := false }⟩ outline cursor
        boundary scope := by
  induction outline generalizing cursor boundary scope with
  | nil => rfl
  | cons tag body rest ihBody ihRest =>
    rw [Outline.tags, List.forall_mem_cons, List.forall_mem_append] at notRaw
    obtain ⟨ofTag, ofBody, ofRest⟩ := notRaw
    have later := ihRest scope ofRest
    have passes (bodyEnd : Position) := funext fun inner => ihBody inner ofBody tag.stop bodyEnd
    rw [walk, walk]
    rcases tag.sigil_cases with plain | closes | opens
    · have isVariable : tag.isVariable = true := by rw [Tag.isVariable, plain]; rfl
      have same := variableText_escape t s options scope (ofTag isVariable)
      simp only [passes, later, sectionScopes_escape, same]
    · have isClosing : tag.isClosing = true := decide_eq_true closes
      simp only [passes, later, sectionScopes_escape, isClosing, if_true]
    · simp only [passes, later, sectionScopes_escape, opens, if_true]

end Rendering

/-- A page is the same, whether its texts are escaped when they are shown or were escaped in the
store, as long as no variable asks for raw text. -/
theorem Template.render_escaped (t : Template)
    (notRaw : ∀ tag ∈ t.outline.tags, tag.isVariable = true → tag.raw = false) (store : Store)
    (options : Options) :
    t.render store { options with escapeHtml := true } =
      t.render (store.mapText Html.escape) { options with escapeHtml := false } := by
  have same := Rendering.walk_escape t store options [] notRaw .start t.stop
  exact congrArg (Rendered.ofPieces options.lineNumbers) same

/-- `{{#hosts}}{{name}}: {{note}}{{^note}}-{{/note}}; {{/hosts}}` with a text to be escaped and
a falsy one. -/
theorem Template.render_escaped_hosts :
    let t := Template.parse
      "\x7b\x7b#hosts\x7d\x7d\x7b\x7bname\x7d\x7d: \x7b\x7bnote\x7d\x7d\x7b\x7b^note\x7d\x7d-\x7b\x7b/note\x7d\x7d; \x7b\x7b/hosts\x7d\x7d"
    let s : Store := ⟨.mapping [("hosts", .list
      [.mapping [("name", .scalar "R&D"), ("note", .scalar "<up>")],
        .mapping [("name", .scalar "a"), ("note", .scalar "")]])]⟩
    (∀ tag ∈ t.outline.tags, tag.isVariable = true → tag.raw = false) ∧
      t.render s { escapeHtml := true } = t.render (s.mapText Html.escape) { escapeHtml := false } ∧
      (t.render s { escapeHtml := true }).text = "R&amp;D: &lt;up&gt;; a: -; " := by
  intro t s
  have notRaw : ∀ tag ∈ t.outline.tags, tag.isVariable = true → tag.raw = false := by
    decide +kernel
  exact ⟨notRaw, t.render_escaped notRaw s {}, by decide +kernel⟩

end Stencil
