import Stencil.Tag.Scan

/-!
The grammar of tags.

`TagForm` holds the four choices that a tag leaves open, and `TagForm.word` spells the
tag that they make. `IsTagWord` is the grammar: the words that are spelled so. The reader
`leadingTag?` is exact for it.

* `isTagWord_of_leadingTag?`: what is read is a word of the grammar.
* `leadingTag?_of_isTagWord`: where a word of the grammar begins, a tag is read, and the
  word is no longer than that tag.
* `TagForm.parts_word`: to take a word apart gives back the choices that it was spelled with.
-/

namespace Stencil

/-- What a tag is made of, between the two opening and the two closing braces that every
tag has. -/
structure TagForm where
  /-- Whether there is a third opening brace. -/
  third : Bool
  sigil : Option Sigil
  name : List Char
  /-- Whether there is a third closing brace; it need not match the third opening one. -/
  extra : Bool
  name_ne_nil : name ≠ []
  isNameChar_of_mem : ∀ c ∈ name, isNameChar c = true

namespace TagForm

/-- One character, or none. -/
def optional (present : Bool) (c : Char) : List Char := if present then [c] else []

def sigilChars (f : TagForm) : List Char := f.sigil.toList.map Sigil.char

def closing (f : TagForm) : List Char := optional f.extra '}' ++ ['}', '}']

/-- What follows the first two braces. -/
def body (f : TagForm) : List Char :=
  optional f.third '{' ++ (f.sigilChars ++ (f.name ++ f.closing))

/-- The tag as it is written. -/
def word (f : TagForm) : List Char := '{' :: '{' :: f.body

end TagForm

/-- The grammar of tags. -/
def IsTagWord (word : List Char) : Prop := ∃ form : TagForm, form.word = word

/-! ## Characters of names -/

theorem ofChar?_of_isNameChar {c : Char} (h : isNameChar c = true) : Sigil.ofChar? c = none := by
  cases found : Sigil.ofChar? c with
  | none => rfl
  | some sigil =>
    rw [Sigil.ofChar?_eq_some_iff.1 found] at h
    cases sigil <;> exact absurd h (by decide)

theorem ne_brace_of_isNameChar {c : Char} (h : isNameChar c = true) : c ≠ '{' ∧ c ≠ '}' := by
  constructor
  · rintro rfl
    exact absurd h (by decide)
  · rintro rfl
    exact absurd h (by decide)

theorem sigil_char_ne_brace (sigil : Sigil) : sigil.char ≠ '{' := by
  cases sigil <;> decide

/-! ## What is read is in the grammar -/

theorem splitOptional_cases (p : Char → Bool) (cs : List Char) :
    (splitOptional p cs).1 = [] ∨ ∃ c, p c = true ∧ (splitOptional p cs).1 = [c] := by
  cases cs with
  | nil => exact .inl rfl
  | cons c cs =>
    by_cases h : p c = true
    · exact .inr ⟨c, h, by rw [splitOptional, if_pos h]⟩
    · exact .inl (by rw [splitOptional, if_neg h])

theorem closingBraces?_cases {cs braces rest : List Char}
    (h : closingBraces? cs = some (braces, rest)) :
    ∃ extra, braces = TagForm.optional extra '}' ++ ['}', '}'] := by
  unfold closingBraces? at h
  split at h
  · cases h
    exact ⟨true, rfl⟩
  · cases h
    exact ⟨false, rfl⟩
  · cases h

theorem exists_form_of_tagBody? {cs body rest : List Char} (h : tagBody? cs = some (body, rest)) :
    ∃ form : TagForm, form.body = body := by
  simp only [tagBody?] at h
  split at h
  · cases h
  · rename_i nonempty
    obtain ⟨⟨braces, tail⟩, closed, same⟩ := Option.map_eq_some_iff.1 h
    cases same
    obtain ⟨extra, rfl⟩ := closingBraces?_cases closed
    have third : ∃ present, (splitOptional (· = '{') cs).1 = TagForm.optional present '{' := by
      rcases splitOptional_cases (· = '{') cs with absent | ⟨c, brace, one⟩
      · exact ⟨false, absent⟩
      · exact ⟨true, by rw [one, of_decide_eq_true brace]; rfl⟩
    have sigil : ∃ sigil : Option Sigil,
        (splitOptional (fun c => (Sigil.ofChar? c).isSome) (splitOptional (· = '{') cs).2).1 =
          sigil.toList.map Sigil.char := by
      rcases splitOptional_cases (fun c => (Sigil.ofChar? c).isSome)
        (splitOptional (· = '{') cs).2 with absent | ⟨c, isSigil, one⟩
      · exact ⟨none, absent⟩
      · obtain ⟨sort, found⟩ := Option.isSome_iff_exists.1 isSigil
        exact ⟨sort, by rw [one, Sigil.ofChar?_eq_some_iff.1 found]; rfl⟩
    obtain ⟨present, third⟩ := third
    obtain ⟨sort, sigil⟩ := sigil
    refine ⟨⟨present, sort, _, extra, fun empty => nonempty (List.isEmpty_iff.2 empty),
      ?_⟩, ?_⟩
    · exact fun c member => List.all_eq_true.1 List.all_takeWhile c member
    · rw [third, sigil]
      simp [TagForm.body, TagForm.sigilChars, TagForm.closing]

/-- What is read is a word of the grammar. -/
theorem isTagWord_of_leadingTag? {cs word rest : List Char}
    (h : leadingTag? cs = some (word, rest)) : IsTagWord word := by
  unfold leadingTag? at h
  split at h
  · obtain ⟨⟨body, tail⟩, found, same⟩ := Option.map_eq_some_iff.1 h
    cases same
    obtain ⟨form, rfl⟩ := exists_form_of_tagBody? found
    exact ⟨form, rfl⟩
  · cases h

/-! ## What is in the grammar is read -/

/-- An optional character is found where it stands, if what follows is of another class. -/
theorem splitOptional_append_of_head {p : Char → Bool} {front back : List Char}
    (short : front.length ≤ 1) (inside : ∀ c ∈ front, p c = true)
    (behind : ∀ c, back.head? = some c → p c = false) :
    splitOptional p (front ++ back) = (front, back) := by
  rcases front with _ | ⟨c, _ | ⟨d, more⟩⟩
  · cases back with
    | nil => rfl
    | cons c back => simp [splitOptional, behind c rfl]
  · simp [splitOptional, inside c List.mem_cons_self]
  · simp at short

theorem closingBraces?_closing (form : TagForm) (rest : List Char) :
    ∃ braces more, closingBraces? (form.closing ++ rest) = some (braces, more) ∧
      form.closing <+: braces := by
  unfold TagForm.closing
  cases form.extra with
  | true => exact ⟨_, _, rfl, List.prefix_refl _⟩
  | false =>
    -- Without a third brace of its own, the tag takes one that happens to follow.
    by_cases third : rest.head? = some '}'
    · obtain ⟨more, rfl⟩ := List.head?_eq_some_iff.1 third
      exact ⟨_, _, rfl, ['}'], rfl⟩
    · refine ⟨['}', '}'], rest, ?_, List.prefix_refl _⟩
      cases rest with
      | nil => rfl
      | cons c rest =>
        have other : c ≠ '}' := fun same => third (by rw [same]; rfl)
        simp [TagForm.optional, closingBraces?, other]

namespace TagForm

variable (form : TagForm) (rest : List Char)

theorem head?_closing : (form.closing ++ rest).head? = some '}' := by
  unfold closing
  cases form.extra <;> rfl

theorem head?_name : ∃ c, isNameChar c = true ∧ (form.name ++ rest).head? = some c := by
  obtain ⟨c, name, same⟩ := List.exists_cons_of_ne_nil form.name_ne_nil
  refine ⟨c, form.isNameChar_of_mem c ?_, ?_⟩
  · rw [same]
    exact List.mem_cons_self
  · rw [same]
    rfl

theorem head?_sigilChars : ∃ c, c ≠ '{' ∧
    (form.sigilChars ++ (form.name ++ rest)).head? = some c := by
  unfold sigilChars
  cases form.sigil with
  | none =>
    obtain ⟨c, isName, first⟩ := form.head?_name rest
    exact ⟨c, (ne_brace_of_isNameChar isName).1, first⟩
  | some sigil => exact ⟨sigil.char, sigil_char_ne_brace sigil, rfl⟩

theorem splitOptional_third :
    splitOptional (· = '{')
        (optional form.third '{' ++ (form.sigilChars ++ (form.name ++ (form.closing ++ rest)))) =
      (optional form.third '{', form.sigilChars ++ (form.name ++ (form.closing ++ rest))) := by
  obtain ⟨first, other, head⟩ := form.head?_sigilChars (form.closing ++ rest)
  apply splitOptional_append_of_head
  · cases form.third <;> decide
  · cases form.third <;> simp [optional]
  · intro c same
    rw [head] at same
    cases same
    simpa using other

theorem splitOptional_sigilChars :
    splitOptional (fun c => (Sigil.ofChar? c).isSome)
        (form.sigilChars ++ (form.name ++ (form.closing ++ rest))) =
      (form.sigilChars, form.name ++ (form.closing ++ rest)) := by
  obtain ⟨first, isName, head⟩ := form.head?_name (form.closing ++ rest)
  apply splitOptional_append_of_head
  · unfold sigilChars
    cases form.sigil <;> simp
  · unfold sigilChars
    cases form.sigil <;> simp [Sigil.ofChar?_char]
  · intro c same
    rw [head] at same
    cases same
    simp [ofChar?_of_isNameChar isName]

theorem takeWhile_name : (form.name ++ (form.closing ++ rest)).takeWhile isNameChar = form.name := by
  have stop : (form.closing ++ rest).takeWhile isNameChar = [] := by
    obtain ⟨more, same⟩ := List.head?_eq_some_iff.1 (form.head?_closing rest)
    rw [same]
    rfl
  rw [List.takeWhile_append_of_pos form.isNameChar_of_mem, stop, List.append_nil]

theorem dropWhile_name :
    (form.name ++ (form.closing ++ rest)).dropWhile isNameChar = form.closing ++ rest := by
  obtain ⟨more, same⟩ := List.head?_eq_some_iff.1 (form.head?_closing rest)
  rw [List.dropWhile_append_of_pos form.isNameChar_of_mem, same]
  rfl

/-- The body of a tag is read up to the closing braces that are read behind its name. -/
theorem tagBody?_of_closing {rest braces more : List Char}
    (closed : closingBraces? (form.closing ++ rest) = some (braces, more)) :
    tagBody? (form.body ++ rest) =
      some (optional form.third '{' ++ (form.sigilChars ++ (form.name ++ braces)), more) := by
  have whole : form.body ++ rest =
      optional form.third '{' ++ (form.sigilChars ++ (form.name ++ (form.closing ++ rest))) := by
    simp [body]
  have nonempty : form.name.isEmpty = false := by
    simpa using form.name_ne_nil
  simp only [whole, tagBody?, splitOptional_third, splitOptional_sigilChars, takeWhile_name,
    dropWhile_name, nonempty, closed, Bool.false_eq_true, if_false, Option.map_some,
    List.append_assoc]

theorem tagBody?_body :
    ∃ longer more, tagBody? (form.body ++ rest) = some (longer, more) ∧ form.body <+: longer := by
  obtain ⟨braces, more, closed, tail, same⟩ := closingBraces?_closing form rest
  refine ⟨form.body ++ tail, more, ?_, tail, rfl⟩
  rw [form.tagBody?_of_closing closed, ← same]
  simp [body]

/-- Closing braces are read as they are, unless there are two and a third one follows. -/
theorem closingBraces?_of_head? (apart : form.extra = true ∨ rest.head? ≠ some '}') :
    closingBraces? (form.closing ++ rest) = some (form.closing, rest) := by
  unfold closing
  cases extra : form.extra with
  | true => rfl
  | false =>
    have behind : rest.head? ≠ some '}' := apart.resolve_left (by rw [extra]; decide)
    cases rest with
    | nil => rfl
    | cons c rest =>
      have other : c ≠ '}' := fun same => behind (congrArg some same)
      simp [optional, closingBraces?, other]

end TagForm

/-- Where a word of the grammar begins, a tag is read that begins with that word. -/
theorem leadingTag?_of_isTagWord {word : List Char} (h : IsTagWord word) (rest : List Char) :
    ∃ longer more, leadingTag? (word ++ rest) = some (longer, more) ∧ word <+: longer := by
  obtain ⟨form, rfl⟩ := h
  obtain ⟨longer, more, read, tail, same⟩ := form.tagBody?_body rest
  refine ⟨'{' :: '{' :: longer, more, ?_, tail, ?_⟩
  · rw [TagForm.word, List.cons_append, List.cons_append, leadingTag?, read]
    rfl
  · rw [TagForm.word, List.cons_append, List.cons_append, same]

/-- A word is read as it is, unless it ends with two braces and a third one follows. -/
theorem leadingTag?_word {form : TagForm} {rest : List Char}
    (apart : form.extra = true ∨ rest.head? ≠ some '}') :
    leadingTag? (form.word ++ rest) = some (form.word, rest) := by
  have read := form.tagBody?_of_closing (form.closingBraces?_of_head? rest apart)
  rw [TagForm.word, List.cons_append, List.cons_append, leadingTag?, read]
  rfl

/-! ## Taking words apart -/

namespace TagForm

variable (form : TagForm)

/-- Between its outer pairs of braces a word holds all that it has a choice in. -/
theorem inside_word (p : Position) :
    RawTag.inside ⟨p, String.ofList form.word⟩ =
      optional form.third '{' ++ (form.sigilChars ++ (form.name ++ optional form.extra '}')) := by
  have outer : form.word = ['{', '{'] ++
      ((optional form.third '{' ++ (form.sigilChars ++ (form.name ++ optional form.extra '}'))) ++
        ['}', '}']) := by
    simp [word, body, closing]
  rw [RawTag.inside, String.toList_ofList, outer, Text.dropPrefix?_append]
  dsimp only [Option.getD_some]
  rw [Text.dropSuffix?_append, Option.getD_some]

theorem getLast?_name : ∃ c, isNameChar c = true ∧ (form.sigilChars ++ form.name).getLast? = some c := by
  have last := List.getLast_mem form.name_ne_nil
  refine ⟨form.name.getLast form.name_ne_nil, form.isNameChar_of_mem _ last, ?_⟩
  rw [List.getLast?_append, List.getLast?_eq_some_getLast form.name_ne_nil]
  rfl

/-- A third opening brace is taken off where there is one. -/
theorem dropPrefix?_third (more : List Char) :
    Text.dropPrefix? ['{'] (optional form.third '{' ++ (form.sigilChars ++ (form.name ++ more))) =
      if form.third then some (form.sigilChars ++ (form.name ++ more)) else none := by
  cases form.third with
  | true => exact Text.dropPrefix?_append ['{'] _
  | false =>
    obtain ⟨c, other, head⟩ := form.head?_sigilChars more
    apply Text.dropPrefix?_of_head?
    rw [optional, if_neg Bool.false_ne_true, List.nil_append, head]
    exact fun same => other (Option.some.inj same)

/-- A third closing brace is taken off where there is one. -/
theorem dropSuffix?_extra :
    (Text.dropSuffix? ['}'] (form.sigilChars ++ (form.name ++ optional form.extra '}'))).getD
      (form.sigilChars ++ (form.name ++ optional form.extra '}')) = form.sigilChars ++ form.name := by
  rw [← List.append_assoc]
  cases form.extra with
  | true =>
    rw [optional, if_pos rfl, Text.dropSuffix?_append]
    rfl
  | false =>
    obtain ⟨c, isName, last⟩ := form.getLast?_name
    have other : (form.sigilChars ++ form.name).getLast? ≠ some '}' := by
      rw [last]
      exact fun same => (ne_brace_of_isNameChar isName).2 (Option.some.inj same)
    rw [optional, if_neg Bool.false_ne_true, List.append_nil, Text.dropSuffix?_of_getLast? other]
    rfl

/-- The parts of a word are what it was spelled with. Braces and sigils do not get into the
name, whether the third braces are balanced or not. -/
theorem parts_word (p : Position) :
    RawTag.parts ⟨p, String.ofList form.word⟩ =
      ⟨form.third, form.sigil, String.ofList form.name⟩ := by
  have braced : (Text.dropPrefix? ['{'] (RawTag.inside ⟨p, String.ofList form.word⟩)).isSome =
      form.third := by
    rw [inside_word, dropPrefix?_third]
    cases form.third <;> rfl
  have unbraced : (Text.dropPrefix? ['{'] (RawTag.inside ⟨p, String.ofList form.word⟩)).getD
      (RawTag.inside ⟨p, String.ofList form.word⟩) =
        form.sigilChars ++ (form.name ++ optional form.extra '}') := by
    rw [inside_word, dropPrefix?_third]
    cases form.third <;> rfl
  unfold RawTag.parts
  dsimp only
  rw [unbraced, dropSuffix?_extra, braced]
  unfold sigilChars
  cases form.sigil with
  | none =>
    obtain ⟨c, isName, head⟩ := form.head?_name []
    rw [List.append_nil] at head
    rw [Option.toList_none, List.map_nil, List.nil_append, head, Option.bind_some,
      ofChar?_of_isNameChar isName]
  | some sigil =>
    have first : (sigil.char :: form.name).head?.bind Sigil.ofChar? = some sigil :=
      Sigil.ofChar?_char sigil
    rw [Option.toList_some, List.map_singleton, List.singleton_append, first]
    rfl

end TagForm

end Stencil
