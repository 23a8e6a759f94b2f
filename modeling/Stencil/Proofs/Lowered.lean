import Stencil.Proofs.Brackets
import Stencil.Proofs.Passage

/-!
A text that stands below another.

A line end is in no tag, so the tags of a text are found again when the text stands below
another one: `scan_below`. Only their lines are counted on from there. What is reported of
tags depends on their places in no other way, which `matchReport_down` says.
-/

namespace Stencil

/-! ## Places further down -/

/-- The place in the same column, but `n` lines further down. -/
def Position.down (n : Nat) (p : Position) : Position := ⟨p.line + n, p.column⟩

def RawTag.down (n : Nat) (raw : RawTag) : RawTag := { raw with position := raw.position.down n }

def Tag.down (n : Nat) (tag : Tag) : Tag := { tag with position := tag.position.down n }

def Diagnostic.down (n : Nat) (d : Diagnostic) : Diagnostic :=
  { d with position := d.position.down n }

namespace Position

variable {n : Nat} {p q : Position}

theorem down_lt_down (h : p < q) : p.down n < q.down n := by
  simp only [lt_def, down] at *
  omega

/-- What is `n` lines down is behind the first `n` lines. -/
theorem lt_down (h : p.line < n) (q : Position) : p < q.down n :=
  .inl (Nat.lt_of_lt_of_le h (Nat.le_add_left n q.line))

theorem after_down (n : Nat) (p : Position) (c : Char) :
    (p.down n).after c = (p.after c).down n := by
  unfold after
  split
  · exact congrArg (Position.mk · 0) (Nat.add_right_comm p.line n 1)
  · rfl

theorem past_down (n : Nat) (p : Position) (cs : List Char) :
    (p.down n).past cs = (p.past cs).down n := by
  induction cs generalizing p with
  | nil => rfl
  | cons c cs ih => rw [past_cons, past_cons, after_down, ih]

end Position

theorem RawTag.tag_down (n : Nat) (raw : RawTag) : (raw.down n).tag = raw.tag.down n := by
  have same : (raw.down n).parts = raw.parts := RawTag.parts_eq_of_text rfl
  rw [RawTag.tag, same]
  rfl

theorem map_tag_down (n : Nat) (tags : List RawTag) :
    (tags.map (RawTag.down n)).map RawTag.tag = (tags.map RawTag.tag).map (Tag.down n) := by
  rw [List.map_map, List.map_map]
  exact List.map_congr_left fun raw _ => raw.tag_down n

/-! ## Scanning below a text -/

theorem Segment.rawTags_down (n : Nat) (p : Position) (segments : List (Segment Char)) :
    rawTags (p.down n) segments = (rawTags p segments).map (RawTag.down n) := by
  induction segments generalizing p with
  | nil => rfl
  | cons segment rest ih =>
    cases segment with
    | literal c => rw [rawTags_literal, rawTags_literal, Position.after_down, ih]
    | tag word =>
      rw [rawTags_tag, rawTags_tag, Position.past_down, ih]
      rfl

theorem toList_below (upper lower : String) :
    (upper ++ "\n" ++ lower).toList = upper.toList ++ '\n' :: lower.toList := by
  rw [String.toList_append, String.toList_append, List.append_assoc]
  rfl

/-- Behind a text and a line end comes the line with the number of lines of the text. -/
theorem Template.past_lineEnd (source : String) :
    (Position.behind source.toList).after '\n' = Position.start.down (parse source).lineCount := by
  have count : (Position.behind source.toList).line + 1 = 0 + (parse source).lineCount := by
    rw [lineCount_eq_line_behind, Nat.zero_add]
  exact congrArg (Position.mk · 0) count

/-- The tags of two texts, one below the other. -/
theorem scan_below (upper lower : String) :
    scan (upper ++ "\n" ++ lower) =
      scan upper ++ (scan lower).map (RawTag.down (Template.parse upper).lineCount) := by
  rw [← Segment.rawTags_cut, ← Segment.rawTags_cut, ← Segment.rawTags_cut, toList_below,
    Segment.cut_append_lineEnd, Segment.rawTags_append, Segment.flatMap_chars_cut,
    Segment.rawTags_literal, ← Segment.rawTags_down, ← Template.past_lineEnd]
  rfl

/-- The tags of a text are on its lines. -/
theorem line_lt_of_mem_scan {source : String} {raw : RawTag} (h : raw ∈ scan source) :
    raw.position.line < (Template.parse source).lineCount := by
  rw [← Segment.rawTags_cut] at h
  obtain ⟨front, word, rest, cut, read, rfl⟩ := Segment.exists_cut_of_mem_rawTags h
  exact (Template.slice?_line_parse cut (leadingTag?_flat read)).1

/-! ## Reports below a text -/

theorem mismatch?_down (n : Nat) (tag close : Tag) :
    mismatch? (tag.down n) (close.down n) = (mismatch? tag close).map (Diagnostic.down n) := by
  unfold mismatch?
  rw [apply_ite (Option.map _)]
  rfl

/-- Tags further down have the same problems further down. -/
theorem matchReport_down (n : Nat) (opened tags : List Tag) :
    matchReport (opened.map (Tag.down n)) (tags.map (Tag.down n)) =
      (matchReport opened tags).map (Diagnostic.down n) := by
  induction tags generalizing opened with
  | nil =>
    rw [matchReport, List.map_nil, matchReport, List.map_map, List.map_map]
    rfl
  | cons tag rest ih =>
    have sigil : (tag.down n).sigil = tag.sigil := rfl
    rw [List.map_cons]
    rcases tag.sigil_cases with plain | closes | opens
    · rw [matchReport_cons_variable plain, matchReport_cons_variable (sigil.trans plain), ih]
    · have closes' := sigil.trans closes
      cases opened with
      | nil =>
        rw [matchReport_cons_stray closes, List.map_nil, matchReport_cons_stray closes',
          List.map_cons, ← ih]
        rfl
      | cons innermost outer =>
        rw [matchReport_cons_close closes, List.map_cons, matchReport_cons_close closes', ih,
          mismatch?_down, List.map_append, Option.toList_map]
    · have opens' : (tag.down n).opens = true := opens
      rw [matchReport_cons_open opens, matchReport_cons_open opens', ← ih]
      rfl

/-- Each problem is reported at the place of a tag. -/
theorem position_mem_of_mem_matchReport {opened tags : List Tag} {d : Diagnostic}
    (h : d ∈ matchReport opened tags) : d.position ∈ (opened ++ tags).map Tag.position := by
  have reported : 0 < ((matchReport opened tags).map Diagnostic.position).count d.position :=
    List.count_pos_iff.mpr (List.mem_map_of_mem h)
  exact List.count_pos_iff.mp
    (Nat.lt_of_lt_of_le reported (count_position_matchReport_le opened tags d.position))

/-- The problems of a text are on its lines. -/
theorem line_lt_of_mem_diagnostics {source : String} {d : Diagnostic}
    (h : d ∈ (Template.parse source).diagnostics) :
    d.position.line < (Template.parse source).lineCount := by
  have reported := (Outline.perm_diagnostics_ofTags (scan source)).mem_iff.mp h
  obtain ⟨tag, member, place⟩ := List.mem_map.mp (position_mem_of_mem_matchReport reported)
  obtain ⟨raw, scanned, rfl⟩ := List.mem_map.mp member
  rw [← place]
  exact line_lt_of_mem_scan scanned

end Stencil
