import Mathlib.Data.List.Forall2
import Stencil.Proofs.Reach

/-!
Names and the paths that they spell.

One path has many names. Dots at the ends of a name and double dots inside it mean nothing, and
neither do zeros in front of a number below the bound of indices. `Path.parse_eq_iff` says that
this is all: names spell the same path exactly if their segments are the same steps one by one.

Not every path has a name: `Path.Written` says which ones do. They are the paths that are read
again from their own text, as `Path.text_spec` says.

Among the names of a path the text of the path is the one without such ornament. By
`Path.parse_text_parse` it spells the path again, by `isPlainName_text_parse` it is plain, and
by `IsPlainName.text_parse` no other plain name spells the path.
-/

namespace Stencil

/-! ## Segments that are the same step -/

/-- Two segments that are the same text, or write the same number below the bound of indices. -/
def SameSegment (segment other : String) : Prop :=
  segment = other ∨ ∃ n < Step.indexLimit,
    Text.decimal? segment.toList = some n ∧ Text.decimal? other.toList = some n

namespace Step

/-- A segment is an index if it writes a number below the bound, and a key if it does not. -/
theorem ofSegment_cases (segment : String) :
    (∃ n < indexLimit, Text.decimal? segment.toList = some n ∧ ofSegment segment = index n) ∨
      ((∀ n < indexLimit, Text.decimal? segment.toList ≠ some n) ∧
        ofSegment segment = key segment) := by
  unfold ofSegment
  cases number : Text.decimal? segment.toList with
  | none => exact .inr ⟨fun n _ => nofun, rfl⟩
  | some n =>
    by_cases small : n < indexLimit
    · exact .inl ⟨n, small, rfl, if_pos small⟩
    · refine .inr ⟨fun m below same => ?_, if_neg small⟩
      cases same
      exact small below

theorem ofSegment_of_decimal? {segment : String} {n : Nat} (small : n < indexLimit)
    (written : Text.decimal? segment.toList = some n) : ofSegment segment = index n := by
  rw [ofSegment, written]
  exact if_pos small

theorem ofSegment_eq_iff (segment other : String) :
    ofSegment segment = ofSegment other ↔ SameSegment segment other := by
  constructor
  · intro same
    rcases ofSegment_cases segment with ⟨n, small, written, isIndex⟩ | ⟨-, isKey⟩
    · rcases ofSegment_cases other with ⟨m, -, written', isIndex'⟩ | ⟨-, isKey'⟩
      · rw [isIndex, isIndex'] at same
        cases same
        exact .inr ⟨n, small, written, written'⟩
      · rw [isIndex, isKey'] at same
        cases same
    · rcases ofSegment_cases other with ⟨m, -, -, isIndex'⟩ | ⟨-, isKey'⟩
      · rw [isKey, isIndex'] at same
        cases same
      · rw [isKey, isKey'] at same
        cases same
        exact .inl rfl
  · rintro (rfl | ⟨n, small, written, written'⟩)
    · rfl
    · rw [ofSegment_of_decimal? small written, ofSegment_of_decimal? small written']

end Step

/-! ## The text of a step -/

theorem Text.decimal?_toString (n : Nat) : decimal? (toString n).toList = some n := by
  have digits : (toString n).toList = Nat.toDigits 10 n := Nat.toList_repr
  refine decimal?_eq_some_iff.2 ⟨?_, fun c member => isDigit_of_mem_toString member, ?_⟩
  · rw [digits]
    exact Nat.toDigits_ne_nil
  · rw [digits, decimalNumber_eq, Nat.ofDigitChars_toDigits (by decide) (by decide)]

namespace Step

/-- The text of a step is a segment for the same step. -/
theorem ofSegment_text_ofSegment (segment : String) :
    ofSegment (ofSegment segment).text = ofSegment segment := by
  rcases ofSegment_cases segment with ⟨n, small, -, isIndex⟩ | ⟨-, isKey⟩
  · rw [isIndex]
    exact ofSegment_of_decimal? small (Text.decimal?_toString n)
  · rw [isKey]
    exact isKey

/-- The text of a step has no zeros in front. -/
theorem not_isPadded_text_ofSegment (segment : String) : ¬ IsPadded (ofSegment segment).text := by
  rw [← text_ofSegment_eq_iff, ofSegment_text_ofSegment]

/-- The text of a step has characters of its segment, or digits. -/
theorem mem_text_ofSegment {segment : String} {c : Char} (h : c ∈ (ofSegment segment).text.toList) :
    c ∈ segment.toList ∨ c.isDigit = true := by
  rcases ofSegment_cases segment with ⟨n, -, -, isIndex⟩ | ⟨-, isKey⟩
  · rw [isIndex] at h
    exact .inr (Text.isDigit_of_mem_toString h)
  · rw [isKey] at h
    exact .inl h

end Step

/-! ## Names of one path -/

theorem mem_segments_iff {name segment : String} :
    segment ∈ segments name ↔ segment ∈ Text.splitString '.' name ∧ segment ≠ "" := by
  rw [segments, List.mem_filter, decide_eq_true_eq]

theorem ne_empty_of_mem_segments {name segment : String} (h : segment ∈ segments name) :
    segment ≠ "" := (mem_segments_iff.1 h).2

theorem undotted_of_mem_segments {name segment : String} (h : segment ∈ segments name) :
    '.' ∉ segment.toList := by
  obtain ⟨part, isPart, rfl⟩ := List.mem_map.1 (mem_segments_iff.1 h).1
  rw [String.toList_ofList]
  exact Text.notMem_of_mem_split isPart

/-- Names spell one path if their segments are the same steps. -/
theorem Path.parse_eq_iff (name other : String) :
    Path.parse name = Path.parse other ↔
      List.Forall₂ SameSegment (segments name) (segments other) := by
  rw [parse, parse, ← List.forall₂_eq_eq_eq, List.forall₂_map_left_iff, List.forall₂_map_right_iff]
  simp only [Step.ofSegment_eq_iff]

/-! ## Paths that have a name -/

/-- Whether a text of digits writes a number below the bound of indices. -/
def IsIndexText (text : String) : Prop :=
  text ≠ "" ∧ (∀ c ∈ text.toList, c.isDigit = true) ∧
    Text.decimalNumber text.toList < Step.indexLimit

instance (text : String) : Decidable (IsIndexText text) :=
  have : Decidable (∀ c ∈ text.toList, c.isDigit = true) := List.decidableBAll _ _
  inferInstanceAs (Decidable (_ ∧ _))

theorem isIndexText_iff (text : String) :
    IsIndexText text ↔ ∃ n < Step.indexLimit, Text.decimal? text.toList = some n := by
  simp only [IsIndexText, Text.decimal?_eq_some_iff, ne_eq, String.toList_eq_nil_iff]
  constructor
  · rintro ⟨nonempty, digits, small⟩
    exact ⟨_, small, nonempty, digits, rfl⟩
  · rintro ⟨n, small, nonempty, digits, rfl⟩
    exact ⟨nonempty, digits, small⟩

/-- Whether a step can stand between the dots of a name: a key that is not empty, has no dot of
its own and is not read as an index, or an index below the bound. -/
def Step.Written : Step → Prop
  | key name => name ≠ "" ∧ '.' ∉ name.toList ∧ ¬ IsIndexText name
  | index position => position < indexLimit

instance : (step : Step) → Decidable step.Written
  | .key name => inferInstanceAs (Decidable (name ≠ "" ∧ '.' ∉ name.toList ∧ ¬ IsIndexText name))
  | .index position => inferInstanceAs (Decidable (position < Step.indexLimit))

namespace Step

/-- A segment writes such a step. -/
theorem written_ofSegment {segment : String} (nonempty : segment ≠ "")
    (undotted : '.' ∉ segment.toList) : (ofSegment segment).Written := by
  rcases ofSegment_cases segment with ⟨n, small, -, isIndex⟩ | ⟨noNumber, isKey⟩
  · rw [isIndex]
    exact small
  · rw [isKey]
    refine ⟨nonempty, undotted, fun number => ?_⟩
    obtain ⟨n, small, written⟩ := (isIndexText_iff segment).1 number
    exact noNumber n small written

namespace Written

variable {step : Step}

/-- The text of such a step is a segment for it. -/
theorem ofSegment_text (h : step.Written) : ofSegment step.text = step := by
  cases step with
  | index position => exact ofSegment_of_decimal? h (Text.decimal?_toString position)
  | key name =>
    rcases ofSegment_cases name with ⟨n, small, written, -⟩ | ⟨-, isKey⟩
    · exact absurd ((isIndexText_iff name).2 ⟨n, small, written⟩) h.2.2
    · exact isKey

theorem text_ne_empty (h : step.Written) : step.text ≠ "" := by
  cases step with
  | key name => exact h.1
  | index position =>
    intro empty
    have number := Text.decimal?_toString position
    rw [text] at empty
    rw [empty] at number
    cases number

theorem undotted_text (h : step.Written) : '.' ∉ step.text.toList := by
  cases step with
  | key name => exact h.2.1
  | index position => exact fun dot => absurd (Text.isDigit_of_mem_toString dot) (by decide)

end Written

end Step

namespace Path

/-- A path whose steps can all stand between dots. -/
def Written (p : Path) : Prop := ∀ step ∈ p, step.Written

instance (p : Path) : Decidable p.Written := List.decidableBAll Step.Written p

/-- The segments of the text of such a path are the texts of its steps. -/
theorem Written.segments_text {p : Path} (h : p.Written) : segments p.text = p.map Step.text := by
  rw [text, segments_intercalate]
  · intro shown member
    obtain ⟨step, isStep, rfl⟩ := List.mem_map.1 member
    exact (h step isStep).text_ne_empty
  · intro shown member
    obtain ⟨step, isStep, rfl⟩ := List.mem_map.1 member
    exact (h step isStep).undotted_text

/-- Such a path is read again from its text. -/
theorem Written.parse_text {p : Path} (h : p.Written) : parse p.text = p := by
  rw [parse, h.segments_text, List.map_map]
  conv_rhs => rw [← List.map_id p]
  exact List.map_congr_left fun step member => (h step member).ofSegment_text

/-- Dotted text is read as such a path. -/
theorem written_parse (dotted : String) : (parse dotted).Written := by
  intro step member
  obtain ⟨segment, isSegment, rfl⟩ := List.mem_map.1 member
  exact Step.written_ofSegment (ne_empty_of_mem_segments isSegment)
    (undotted_of_mem_segments isSegment)

theorem segments_text_parse (name : String) :
    segments (Path.parse name).text = (Path.parse name).map Step.text :=
  (written_parse name).segments_text

/-- The text of a path spells the path again. -/
theorem parse_text_parse (name : String) : Path.parse (Path.parse name).text = Path.parse name :=
  (written_parse name).parse_text

/-- A path is read again from its text exactly if its steps can stand between dots: if each key
is not empty, has no dot and is not read as an index, and each index is below the bound. Dotted
text of any kind is read as such a path, so a second reading changes nothing. -/
theorem text_spec (p : Path) (dotted : String) :
    (parse p.text = p ↔ p.Written) ∧ (parse dotted).Written ∧
      parse (parse dotted).text = parse dotted := by
  refine ⟨⟨fun again => ?_, Written.parse_text⟩, written_parse dotted, parse_text_parse dotted⟩
  rw [← again]
  exact written_parse p.text

/-- A number that is too large for an index is a key like others; a smaller one is none, and a key
with a dot comes back as two. -/
example : Path.Written [.key "pins", .index 7, .key "18446744073709551616"] ∧
    ¬ Path.Written [.key "7", .key "a.b"] ∧
    parse (Path.text [.key "7", .key "a.b"]) = [.index 7, .key "a", .key "b"] := by
  decide +kernel

/-- The text of a path that a name spells is a name. -/
theorem isNameChar_of_mem_text_parse {name : String}
    (characters : ∀ c ∈ name.toList, isNameChar c = true) :
    ∀ c ∈ (Path.parse name).text.toList, isNameChar c = true := by
  intro c member
  rcases Text.mem_toList_intercalate member with dot | ⟨shown, isText, inside⟩
  · rw [List.mem_singleton.1 dot]
    rfl
  · obtain ⟨step, isStep, rfl⟩ := List.mem_map.1 isText
    obtain ⟨segment, isSegment, rfl⟩ := List.mem_map.1 isStep
    rcases Step.mem_text_ofSegment inside with written | digit
    · exact characters c (mem_of_mem_segments isSegment written)
    · simp [isNameChar, Char.isAlphanum, digit]

end Path

/-! ## Plain names -/

/-- A name without ornament: no dots at its ends, no double dots, and no number with zeros in
front. -/
def IsPlainName (name : String) : Prop :=
  ∀ part ∈ Text.splitString '.' name, part ≠ "" ∧ ¬ IsPadded part

instance (name : String) : Decidable (IsPlainName name) :=
  List.decidableBAll (fun part => part ≠ "" ∧ ¬ IsPadded part) _

/-- A plain name is the text of its path. -/
theorem IsPlainName.text_parse {name : String} (h : IsPlainName name) :
    (Path.parse name).text = name := by
  have whole : segments name = Text.splitString '.' name :=
    List.filter_eq_self.2 fun part member => decide_eq_true (h part member).1
  have texts : (Path.parse name).map Step.text = Text.splitString '.' name := by
    rw [Path.parse, whole, List.map_map]
    conv_rhs => rw [← List.map_id (Text.splitString '.' name)]
    exact List.map_congr_left fun part member => (Step.text_ofSegment_eq_iff part).2 (h part member).2
  rw [Path.text, texts, Text.intercalate_splitString rfl]

/-- The text of a path is plain. -/
theorem isPlainName_text_parse {name : String} (steps : segments name ≠ []) :
    IsPlainName (Path.parse name).text := by
  intro part member
  have shown : Text.splitString '.' (Path.parse name).text = (Path.parse name).map Step.text := by
    rw [Path.text, Text.splitString_intercalate rfl]
    · simpa [Path.parse] using steps
    · rw [← Path.segments_text_parse]
      exact fun segment isSegment => undotted_of_mem_segments isSegment
  rw [shown] at member
  have isSegment := member
  rw [← Path.segments_text_parse] at isSegment
  obtain ⟨step, isStep, rfl⟩ := List.mem_map.1 member
  obtain ⟨segment, -, rfl⟩ := List.mem_map.1 isStep
  exact ⟨ne_empty_of_mem_segments isSegment, Step.not_isPadded_text_ofSegment segment⟩

/-- Two plain names that spell one path are the same. -/
theorem IsPlainName.eq_of_parse_eq {name other : String} (h : IsPlainName name)
    (k : IsPlainName other) (same : Path.parse name = Path.parse other) : name = other := by
  rw [← h.text_parse, same, k.text_parse]

/-- Plain names are joined to a plain name. -/
theorem IsPlainName.intercalate {names : List String} (some : names ≠ [])
    (h : ∀ name ∈ names, IsPlainName name) : IsPlainName (String.intercalate "." names) := by
  induction names with
  | nil => exact absurd rfl some
  | cons name names ih =>
    obtain ⟨here, later⟩ := List.forall_mem_cons.1 h
    rcases Decidable.em (names = []) with rfl | more
    · rwa [String.intercalate_singleton]
    · intro part member
      rw [String.intercalate_cons_of_ne_nil more, Text.splitString_append_dot] at member
      rcases List.mem_append.1 member with front | back
      · exact here part front
      · exact ih more later part back

end Stencil
