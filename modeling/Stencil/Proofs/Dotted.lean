import Stencil.Path

/-!
Dotted text and the steps that it writes.

A text is cut at its dots, and what is left between them are the steps of a path. So
every key of the path is written in the text, and only text of nothing but dots has no
step.
-/

namespace Stencil

namespace Text

variable {separator : Char}

/-- A part of a text is made of its characters. -/
theorem mem_of_mem_split {cs part : List Char} {c : Char} (member : part ∈ split separator cs)
    (inside : c ∈ part) : c ∈ cs := by
  induction cs generalizing part with
  | nil =>
    rw [split, List.mem_singleton] at member
    rw [member] at inside
    exact inside
  | cons d cs ih =>
    by_cases same : d = separator
    · rw [same, split_cons_self] at member
      rcases List.mem_cons.1 member with rfl | later
      · cases inside
      · exact .tail _ (ih later inside)
    · rw [split_cons_of_ne same] at member
      rcases cut : split separator cs with _ | ⟨first, others⟩
      · exact absurd cut (split_ne_nil separator cs)
      · rw [cut] at member ih
        rcases List.mem_cons.1 member with rfl | later
        · rcases List.mem_cons.1 inside with rfl | inside
          · exact List.mem_cons_self
          · exact .tail _ (ih List.mem_cons_self inside)
        · exact .tail _ (ih (.tail _ later) inside)

/-- A part of a text holds no separator. -/
theorem notMem_of_mem_split {cs part : List Char} (member : part ∈ split separator cs) :
    separator ∉ part := by
  induction cs generalizing part with
  | nil =>
    rw [List.mem_singleton.1 member]
    exact List.not_mem_nil
  | cons c cs ih =>
    by_cases same : c = separator
    · rw [same, split_cons_self] at member
      rcases List.mem_cons.1 member with rfl | later
      · exact List.not_mem_nil
      · exact ih later
    · rw [split_cons_of_ne same] at member
      rcases cut : split separator cs with _ | ⟨first, others⟩
      · exact absurd cut (split_ne_nil separator cs)
      · rw [cut] at member ih
        rcases List.mem_cons.1 member with rfl | later
        · intro inside
          rcases List.mem_cons.1 inside with here | behind
          · exact same here.symm
          · exact ih List.mem_cons_self behind
        · exact ih (.tail _ later)

/-- A text of separators alone has empty parts only. -/
theorem eq_nil_of_mem_split {cs part : List Char} (h : ∀ c ∈ cs, c = separator)
    (member : part ∈ split separator cs) : part = [] := by
  induction cs generalizing part with
  | nil => exact List.mem_singleton.1 member
  | cons c cs ih =>
    obtain ⟨same, rest⟩ := List.forall_mem_cons.1 h
    rw [same, split_cons_self] at member
    rcases List.mem_cons.1 member with rfl | later
    · rfl
    · exact ih rest later

/-- A character of a joined text is the separator or belongs to a part. -/
theorem mem_join {parts : List (List Char)} {c : Char} (member : c ∈ join separator parts) :
    c = separator ∨ ∃ part ∈ parts, c ∈ part := by
  induction parts with
  | nil => cases member
  | cons part parts ih =>
    rcases parts with _ | ⟨next, others⟩
    · exact .inr ⟨part, List.mem_cons_self, member⟩
    · rw [join, List.mem_append, List.mem_cons] at member
      · rcases member with here | rfl | later
        · exact .inr ⟨part, List.mem_cons_self, here⟩
        · exact .inl rfl
        · rcases ih later with same | ⟨found, isPart, inside⟩
          · exact .inl same
          · exact .inr ⟨found, .tail _ isPart, inside⟩
      · rintro ⟨⟩

/-- Parts without the separator are found again in the text that joins them. -/
theorem splitString_intercalate {joint : String} (single : joint.toList = [separator])
    {parts : List String} (some : parts ≠ []) (whole : ∀ part ∈ parts, separator ∉ part.toList) :
    splitString separator (String.intercalate joint parts) = parts := by
  rw [splitString]
  induction parts with
  | nil => exact absurd rfl some
  | cons part parts ih =>
    obtain ⟨here, later⟩ := List.forall_mem_cons.1 whole
    rcases Decidable.em (parts = []) with rfl | more
    · rw [String.intercalate_singleton, split_of_notMem here, List.map_singleton,
        String.ofList_toList]
    · rw [String.intercalate_cons_of_ne_nil more, String.toList_append, String.toList_append, single,
        List.append_assoc, List.singleton_append, split_append_separator here, List.map_cons,
        String.ofList_toList, ih more later]

theorem toList_intercalate_ofList {joint : String} (single : joint.toList = [separator])
    (parts : List (List Char)) :
    (String.intercalate joint (parts.map String.ofList)).toList = join separator parts := by
  induction parts with
  | nil => rfl
  | cons part parts ih =>
    cases parts with
    | nil => rw [List.map_singleton, String.intercalate_singleton, String.toList_ofList, join]
    | cons next parts =>
      have more : (next :: parts).map String.ofList ≠ [] := List.cons_ne_nil _ _
      rw [List.map_cons, String.intercalate_cons_of_ne_nil more, String.toList_append,
        String.toList_append, String.toList_ofList, single, ih, List.append_assoc,
        List.singleton_append]
      rfl

/-- The parts of a text make the text again. -/
theorem intercalate_splitString {joint : String} (single : joint.toList = [separator])
    (text : String) : String.intercalate joint (splitString separator text) = text := by
  rw [← String.toList_inj, splitString, toList_intercalate_ofList single, join_split]

/-- A separator cuts a text into the parts in front of it and the parts behind it. -/
theorem split_append_cons (front back : List Char) :
    split separator (front ++ separator :: back) = split separator front ++ split separator back := by
  induction front with
  | nil => exact split_cons_self separator back
  | cons c front ih =>
    by_cases same : c = separator
    · rw [same, List.cons_append, split_cons_self, split_cons_self, ih, List.cons_append]
    · rw [List.cons_append, split_cons_of_ne same, split_cons_of_ne same, ih]
      cases cut : split separator front with
      | nil => exact absurd cut (split_ne_nil separator front)
      | cons first others => rfl

/-- A character of a joined string belongs to the separator or to a part. -/
theorem mem_toList_intercalate {joint : String} {parts : List String} {c : Char}
    (h : c ∈ (String.intercalate joint parts).toList) :
    c ∈ joint.toList ∨ ∃ part ∈ parts, c ∈ part.toList := by
  induction parts with
  | nil => simp at h
  | cons part parts ih =>
    rcases Decidable.em (parts = []) with rfl | more
    · rw [String.intercalate_singleton] at h
      exact .inr ⟨part, List.mem_cons_self, h⟩
    · rw [String.intercalate_cons_of_ne_nil more, String.toList_append, String.toList_append,
        List.mem_append, List.mem_append] at h
      rcases h with (here | between) | later
      · exact .inr ⟨part, List.mem_cons_self, here⟩
      · exact .inl between
      · rcases ih later with between | ⟨found, member, inside⟩
        · exact .inl between
        · exact .inr ⟨found, .tail _ member, inside⟩

end Text

/-- A segment of dotted text is made of its characters. -/
theorem mem_of_mem_segments {dotted segment : String} {c : Char}
    (member : segment ∈ segments dotted) (inside : c ∈ segment.toList) : c ∈ dotted.toList := by
  obtain ⟨part, isPart, rfl⟩ := List.mem_map.1 (List.mem_filter.1 member).1
  rw [String.toList_ofList] at inside
  exact Text.mem_of_mem_split isPart inside

/-- A dot between two texts adds no part to theirs. -/
theorem Text.splitString_append_dot (front back : String) :
    splitString '.' (front ++ "." ++ back) = splitString '.' front ++ splitString '.' back := by
  have whole : (front ++ "." ++ back).toList = front.toList ++ '.' :: back.toList := by
    simp [String.toList_append]
  rw [splitString, whole, split_append_cons, List.map_append]
  rfl

/-- A dot between two texts adds no segment to theirs. -/
theorem segments_append_dot (front back : String) :
    segments (front ++ "." ++ back) = segments front ++ segments back := by
  rw [segments, Text.splitString_append_dot, List.filter_append]
  rfl

namespace Path

/-- Dotted text that is put together with a dot has the steps of both parts. -/
theorem parse_append_dot (front back : String) :
    Path.parse (front ++ "." ++ back) = Path.parse front ++ Path.parse back := by
  rw [parse, segments_append_dot, List.map_append]
  rfl

/-- A key of a path is a segment of its text. -/
theorem mem_segments_of_mem_parse {dotted name : String}
    (member : Step.key name ∈ Path.parse dotted) : name ∈ segments dotted := by
  obtain ⟨segment, isSegment, written⟩ := List.mem_map.1 member
  unfold Step.ofSegment at written
  split at written
  · split at written
    · cases written
    · cases written
      exact isSegment
  · cases written
    exact isSegment

/-- A path has no step exactly if its text is nothing but dots. -/
theorem parse_eq_nil_iff (dotted : String) :
    Path.parse dotted = [] ↔ ∀ c ∈ dotted.toList, c = '.' := by
  rw [Path.parse, List.map_eq_nil_iff, segments, List.filter_eq_nil_iff, Text.splitString]
  constructor
  · intro empty c member
    rw [← Text.join_split '.' dotted.toList] at member
    rcases Text.mem_join member with same | ⟨part, isPart, inside⟩
    · exact same
    · have none := empty _ (List.mem_map_of_mem isPart)
      have partEmpty : part = [] := by simpa [String.ext_iff] using none
      rw [partEmpty] at inside
      cases inside
  · intro dots segment member
    obtain ⟨part, isPart, rfl⟩ := List.mem_map.1 member
    rw [Text.eq_nil_of_mem_split dots isPart]
    decide

end Path

end Stencil
