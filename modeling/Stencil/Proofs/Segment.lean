import Stencil.Proofs.Copy
import Stencil.Tag.Scan

/-!
A source as a sequence of segments: literal characters and whole tags.

`Segment.cut` reads the source from left to right without counting lines or
columns. It finds the tags that `scan` finds: a tag never crosses a line end, so
looking for tags line by line or in the whole text comes to the same.

* `flatMap_chars_cut`: the segments are the source.
* `rawTags_cut`: the tags among them, each at the place where the text in front of
  it ends, are the scanned tags in order.
-/

namespace Stencil

/-! ## Tags and line ends -/

/-- The characters that tags are made of. -/
def isTagChar (c : Char) : Bool :=
  c = '{' || c = '}' || (Sigil.ofChar? c).isSome || isNameChar c

theorem isTagChar_lineEnd : isTagChar '\n' = false := by decide

theorem mem_splitOptional {p : Char → Bool} {cs : List Char} {c : Char}
    (h : c ∈ (splitOptional p cs).1) : p c = true := by
  cases cs with
  | nil => cases h
  | cons d cs =>
    by_cases hd : p d
    · rw [splitOptional, if_pos hd] at h
      rw [List.mem_singleton.1 h, hd]
    · rw [splitOptional, if_neg hd] at h
      cases h

theorem mem_closingBraces? {cs braces rest : List Char} {c : Char}
    (h : closingBraces? cs = some (braces, rest)) (member : c ∈ braces) : c = '}' := by
  unfold closingBraces? at h
  split at h <;> cases h <;> simpa using member

theorem mem_tagBody? {cs body rest : List Char} {c : Char}
    (h : tagBody? cs = some (body, rest)) (member : c ∈ body) : isTagChar c = true := by
  simp only [tagBody?] at h
  split at h
  · cases h
  · obtain ⟨⟨braces, tail⟩, closing, heq⟩ := Option.map_eq_some_iff.1 h
    cases heq
    simp only [List.mem_append] at member
    rcases member with ((brace | sigil) | name) | closed
    · simp [isTagChar, of_decide_eq_true (mem_splitOptional brace)]
    · simp [isTagChar, mem_splitOptional sigil]
    · simp [isTagChar, List.all_eq_true.1 List.all_takeWhile c name]
    · simp [isTagChar, mem_closingBraces? closing closed]

theorem mem_leadingTag? {cs word rest : List Char} {c : Char}
    (h : leadingTag? cs = some (word, rest)) (member : c ∈ word) : isTagChar c = true := by
  unfold leadingTag? at h
  split at h
  · obtain ⟨⟨body, tail⟩, found, heq⟩ := Option.map_eq_some_iff.1 h
    cases heq
    rcases List.mem_cons.1 member with rfl | member
    · rfl
    · rcases List.mem_cons.1 member with rfl | member
      · rfl
      · exact mem_tagBody? found member
  · cases h

theorem leadingTag?_ne_nil {cs word rest : List Char}
    (h : leadingTag? cs = some (word, rest)) : word ≠ [] := by
  unfold leadingTag? at h
  split at h
  · obtain ⟨⟨body, tail⟩, found, heq⟩ := Option.map_eq_some_iff.1 h
    cases heq
    exact List.cons_ne_nil _ _
  · cases h

theorem leadingTag?_flat {cs word rest : List Char}
    (h : leadingTag? cs = some (word, rest)) : '\n' ∉ word := by
  intro member
  have bad := mem_leadingTag? h member
  rw [isTagChar_lineEnd] at bad
  cases bad

/-- What stands behind a line end does not matter to the optional character in
front of it. -/
theorem splitOptional_append_lineEnd {p : Char → Bool} (h : p '\n' = false)
    (cs more : List Char) :
    splitOptional p (cs ++ '\n' :: more) =
      ((splitOptional p cs).1, (splitOptional p cs).2 ++ '\n' :: more) := by
  cases cs with
  | nil => simp [splitOptional, h]
  | cons c cs =>
    by_cases hc : p c <;> simp [splitOptional, hc]

theorem closingBraces?_append_lineEnd (cs more : List Char) :
    closingBraces? (cs ++ '\n' :: more) =
      (closingBraces? cs).map fun (braces, rest) => (braces, rest ++ '\n' :: more) := by
  fun_cases closingBraces? cs with
  | case1 rest => rfl
  | case2 rest third =>
    cases rest with
    | nil => rfl
    | cons d rest =>
      have hd : d ≠ '}' := fun same => third rest (by rw [same])
      simp [closingBraces?, hd]
  | case3 _ _ pair =>
    rcases cs with _ | ⟨c, _ | ⟨d, rest⟩⟩
    · rfl
    · by_cases hc : c = '}' <;> simp [closingBraces?, hc]
    · have apart : ¬ (c = '}' ∧ d = '}') := fun same => pair rest (by rw [same.1, same.2])
      by_cases hc : c = '}'
      · have hd : d ≠ '}' := fun same => apart ⟨hc, same⟩
        simp [closingBraces?, hd]
      · simp [closingBraces?, hc]

theorem takeWhile_append_lineEnd {p : Char → Bool} (h : p '\n' = false) (cs more : List Char) :
    (cs ++ '\n' :: more).takeWhile p = cs.takeWhile p := by
  induction cs with
  | nil => simp [h]
  | cons c cs ih => simp [List.takeWhile_cons, ih]

theorem dropWhile_append_lineEnd {p : Char → Bool} (h : p '\n' = false) (cs more : List Char) :
    (cs ++ '\n' :: more).dropWhile p = cs.dropWhile p ++ '\n' :: more := by
  induction cs with
  | nil => simp [h]
  | cons c cs ih => by_cases hc : p c <;> simp [hc, ih]

theorem tagBody?_append_lineEnd (cs more : List Char) :
    tagBody? (cs ++ '\n' :: more) =
      (tagBody? cs).map fun (body, rest) => (body, rest ++ '\n' :: more) := by
  have opening := splitOptional_append_lineEnd (p := (· = '{')) rfl cs more
  have sigil := splitOptional_append_lineEnd (p := fun c => (Sigil.ofChar? c).isSome) rfl
    (splitOptional (· = '{') cs).2 more
  have nameEnd : isNameChar '\n' = false := by decide
  simp only [tagBody?, opening, sigil, takeWhile_append_lineEnd nameEnd,
    dropWhile_append_lineEnd nameEnd, closingBraces?_append_lineEnd]
  split
  · rfl
  · simp only [Option.map_map]
    rfl

theorem leadingTag?_append_lineEnd (cs more : List Char) :
    leadingTag? (cs ++ '\n' :: more) =
      (leadingTag? cs).map fun (word, rest) => (word, rest ++ '\n' :: more) := by
  fun_cases leadingTag? cs with
  | case1 cs =>
    simp only [List.cons_append, leadingTag?, tagBody?_append_lineEnd, Option.map_map]
    rfl
  | case2 _ pair =>
    rcases cs with _ | ⟨c, _ | ⟨d, rest⟩⟩
    · rfl
    · by_cases hc : c = '{' <;> simp [leadingTag?, hc]
    · have apart : ¬ (c = '{' ∧ d = '{') := fun same => pair rest (by rw [same.1, same.2])
      by_cases hc : c = '{'
      · have hd : d ≠ '{' := fun same => apart ⟨hc, same⟩
        simp [leadingTag?, hd]
      · simp [leadingTag?, hc]

/-! ## Segments -/

/-- A piece of a source: a tag with all its braces, or a character outside the
tags. Characters are of a type `α`, for they may carry more than their letter. -/
inductive Segment (α : Type)
  | literal (a : α)
  | tag (word : List Char)

namespace Segment

/-- The segments of a text. -/
def cut (cs : List Char) : List (Segment Char) :=
  match _h : leadingTag? cs with
  | some (word, rest) => tag word :: cut rest
  | none =>
    match cs with
    | [] => []
    | c :: rest => literal c :: cut rest
termination_by cs.length
decreasing_by
  · exact leadingTag?_length ‹_›
  · simp

/-- The characters that a segment takes up. -/
def chars : Segment Char → List Char
  | literal c => [c]
  | tag word => word

/-- Each segment of a sequence that starts at `p`, with its own place. -/
def placed (p : Position) : List (Segment Char) → List (Position × Segment Char)
  | [] => []
  | segment :: rest => (p, segment) :: placed (p.past segment.chars) rest

def rawTag? : Position × Segment Char → Option RawTag
  | (_, literal _) => none
  | (p, tag word) => some ⟨p, String.ofList word⟩

/-- The tags of a sequence of segments that starts at `p`. -/
def rawTags (p : Position) (segments : List (Segment Char)) : List RawTag :=
  (placed p segments).filterMap rawTag?

theorem cut_of_some {cs word rest : List Char} (h : leadingTag? cs = some (word, rest)) :
    cut cs = tag word :: cut rest := by
  rw [cut]
  split
  · rename_i found
    rw [h] at found
    cases found
    rfl
  · rename_i found
    rw [h] at found
    cases found

theorem cut_nil : cut [] = [] := by
  rw [cut]
  rfl

theorem cut_cons_of_none {c : Char} {cs : List Char} (h : leadingTag? (c :: cs) = none) :
    cut (c :: cs) = literal c :: cut cs := by
  rw [cut]
  split
  · rename_i found
    rw [h] at found
    cases found
  · rfl

/-- The segments of a text make the text again. -/
theorem flatMap_chars_cut (cs : List Char) : (cut cs).flatMap chars = cs := by
  fun_induction cut cs with
  | case1 cs word rest found ih =>
    rw [List.flatMap_cons, ih]
    exact leadingTag?_append found
  | case2 => rfl
  | case3 c rest none ih => rw [List.flatMap_cons, ih]; rfl

/-- A tag among the segments of a text is no empty word and lies on one line. -/
theorem word_of_mem_cut {cs word : List Char} (h : tag word ∈ cut cs) :
    word ≠ [] ∧ '\n' ∉ word := by
  fun_induction cut cs with
  | case1 cs first rest found ih =>
    rcases List.mem_cons.1 h with same | later
    · cases same
      exact ⟨leadingTag?_ne_nil found, leadingTag?_flat found⟩
    · exact ih later
  | case2 => cases h
  | case3 c rest none ih =>
    rcases List.mem_cons.1 h with same | later
    · cases same
    · exact ih later

/-- A line end stands in no tag, so a text may be cut in front of it and behind. -/
theorem cut_append_lineEnd (cs more : List Char) :
    cut (cs ++ '\n' :: more) = cut cs ++ literal '\n' :: cut more := by
  fun_induction cut cs with
  | case1 cs word rest found ih =>
    have longer := leadingTag?_append_lineEnd cs more
    rw [found] at longer
    rw [cut_of_some longer, ih]
    rfl
  | case2 none =>
    have longer := leadingTag?_append_lineEnd [] more
    rw [none] at longer
    exact cut_cons_of_none longer
  | case3 c rest none ih =>
    have longer := leadingTag?_append_lineEnd (c :: rest) more
    rw [none, List.cons_append] at longer
    rw [List.cons_append, cut_cons_of_none longer, ih]
    rfl

/-! ## The scanned tags -/

theorem placed_append (p : Position) (front back : List (Segment Char)) :
    placed p (front ++ back) = placed p front ++ placed (p.past (front.flatMap chars)) back := by
  induction front generalizing p with
  | nil => rfl
  | cons segment front ih => simp [placed, ih, Position.past_append]

theorem rawTags_append (p : Position) (front back : List (Segment Char)) :
    rawTags p (front ++ back) = rawTags p front ++ rawTags (p.past (front.flatMap chars)) back := by
  simp [rawTags, placed_append]

theorem rawTags_literal (p : Position) (c : Char) (rest : List (Segment Char)) :
    rawTags p (literal c :: rest) = rawTags (p.after c) rest := rfl

theorem rawTags_tag (p : Position) (word : List Char) (rest : List (Segment Char)) :
    rawTags p (tag word :: rest) = ⟨p, String.ofList word⟩ :: rawTags (p.past word) rest := rfl

/-- On one line, the segments hold the tags that are found there. -/
theorem rawTags_cut_of_notMem {line column : Nat} {cs : List Char} (flat : '\n' ∉ cs) :
    rawTags ⟨line, column⟩ (cut cs) = tagsFrom line column cs := by
  fun_induction tagsFrom line column cs with
  | case1 column cs word rest found ih =>
    have whole := leadingTag?_append found
    rw [← whole, List.mem_append, not_or] at flat
    rw [cut_of_some found, rawTags_tag, Position.past_of_notMem _ flat.1]
    exact congrArg _ (ih flat.2)
  | case2 column none => rw [cut_nil]; rfl
  | case3 column c rest none ih =>
    obtain ⟨hc, hrest⟩ := not_or.1 (mt List.mem_cons.2 flat)
    rw [cut_cons_of_none none, rawTags_literal, Position.after_of_ne _ (Ne.symm hc)]
    exact ih hrest

theorem rawTags_cut_lines (line : Nat) (cs : List Char) :
    rawTags ⟨line, 0⟩ (cut cs) =
      ((Text.lines cs).zipIdx line).flatMap fun (cs, line) => scanLine line cs := by
  -- One line of the text at a time.
  induction length : cs.length using Nat.strongRecOn generalizing line cs with
  | ind count ih =>
  by_cases ends : '\n' ∈ cs
  · obtain ⟨first, rest, rfl, flat⟩ := List.eq_append_cons_of_mem ends
    have shorter : rest.length < count := by simp at length; omega
    rw [cut_append_lineEnd, rawTags_append, rawTags_cut_of_notMem flat, flatMap_chars_cut,
      Position.past_of_notMem _ flat, rawTags_literal, Position.after_lineEnd,
      Text.lines_append_lineEnd flat, List.zipIdx_cons, List.flatMap_cons]
    exact congrArg _ (ih rest.length shorter (line + 1) rest rfl)
  · rw [rawTags_cut_of_notMem ends, Text.lines_of_notMem ends]
    simp [scanLine]

/-- The segments hold exactly the tags that are scanned. -/
theorem rawTags_cut (source : String) : rawTags .start (cut source.toList) = scan source :=
  (rawTags_cut_lines 0 source.toList).trans (scan_eq_flatMap source).symm

end Segment

end Stencil
