import Mathlib.Data.List.Induction
import Stencil.Proofs.Lines

/-!
Where a text ends: the place reached by reading it from a given place.

Positions are pairs of line and byte column. `Position.past` says which pair
belongs to a cut of the source, so that statements about positions become
statements about the text in front of them.

* `Position.lt_past`: reading on moves forward, so cuts of one text are ordered
  as their places are.
* `drop_lines_past`: the lines of a text from the place of a cut on.
* `stop_parse`: a template stops where its source ends.
-/

namespace Stencil

namespace Position

/-- The place behind a character that stands at `p`. -/
def after (p : Position) (c : Char) : Position :=
  if c = '\n' then ⟨p.line + 1, 0⟩ else p.advance c.utf8Size

/-- The place behind a text that starts at `p`. -/
def past (p : Position) (cs : List Char) : Position := cs.foldl after p

/-- The place behind a text that the source begins with. -/
def behind (front : List Char) : Position := start.past front

@[simp]
theorem past_nil (p : Position) : p.past [] = p := rfl

@[simp]
theorem past_cons (p : Position) (c : Char) (cs : List Char) :
    p.past (c :: cs) = (p.after c).past cs := rfl

theorem past_append (p : Position) (front back : List Char) :
    p.past (front ++ back) = (p.past front).past back :=
  List.foldl_append

theorem behind_nil : behind [] = start := rfl

theorem behind_append (front back : List Char) :
    behind (front ++ back) = (behind front).past back :=
  past_append start front back

theorem after_lineEnd (p : Position) : p.after '\n' = ⟨p.line + 1, 0⟩ := rfl

theorem after_of_ne {c : Char} (p : Position) (h : c ≠ '\n') :
    p.after c = p.advance c.utf8Size := if_neg h

/-! ## Order -/

theorem le_refl (p : Position) : p ≤ p := Or.inr ⟨rfl, Nat.le_refl _⟩

theorem le_trans {p q r : Position} (hpq : p ≤ q) (hqr : q ≤ r) : p ≤ r := by
  simp only [le_def] at *; omega

theorem le_of_lt {p q : Position} (h : p < q) : p ≤ q := by
  simp only [le_def, lt_def] at *; omega

theorem lt_of_lt_of_le {p q r : Position} (hpq : p < q) (hqr : q ≤ r) : p < r := by
  simp only [le_def, lt_def] at *; omega

theorem not_le {p q : Position} : ¬ p ≤ q ↔ q < p := by
  simp only [le_def, lt_def]; omega

theorem line_le_of_le {p q : Position} (h : p ≤ q) : p.line ≤ q.line := by
  simp only [le_def] at h; omega

theorem lt_after (p : Position) (c : Char) : p < p.after c := by
  have size := c.utf8Size_pos
  unfold after advance
  split
  · exact Or.inl (Nat.lt_succ_self _)
  · exact Or.inr ⟨rfl, by simpa using size⟩

theorem le_past (p : Position) (cs : List Char) : p ≤ p.past cs := by
  induction cs generalizing p with
  | nil => exact le_refl p
  | cons c cs ih => exact le_trans (le_of_lt (lt_after p c)) (ih (p.after c))

/-- Reading on moves forward. -/
theorem lt_past (p : Position) {cs : List Char} (h : cs ≠ []) : p < p.past cs := by
  cases cs with
  | nil => exact absurd rfl h
  | cons c cs => exact lt_of_lt_of_le (lt_after p c) (le_past (p.after c) cs)

theorem lt_irrefl (p : Position) : ¬ p < p := not_lt.2 (le_refl p)

/-- Two cuts of one text at the same place are the same cut. -/
theorem eq_of_past_eq {p : Position} {front front' back back' : List Char}
    (whole : front ++ back = front' ++ back') (same : p.past front = p.past front') :
    front = front' := by
  rcases List.append_eq_append_iff.1 whole with ⟨between, rfl, -⟩ | ⟨between, rfl, -⟩
  · by_contra other
    have some : between ≠ [] := by simpa using other
    have moved := lt_past (p.past front) some
    rw [← past_append, ← same] at moved
    exact lt_irrefl _ moved
  · by_contra other
    have some : between ≠ [] := by simpa using other
    have moved := lt_past (p.past front') some
    rw [← past_append, same] at moved
    exact lt_irrefl _ moved

/-- Without a line end, reading moves along the line by the bytes of the text. -/
theorem past_of_notMem {cs : List Char} (p : Position) (h : '\n' ∉ cs) :
    p.past cs = p.advance (Text.byteLength cs) := by
  induction cs generalizing p with
  | nil => rfl
  | cons c cs ih =>
    obtain ⟨hc, hcs⟩ := not_or.1 (mt List.mem_cons.2 h)
    rw [past_cons, ih (p.after c) hcs, after_of_ne p (Ne.symm hc)]
    simp [advance, Text.byteLength, Nat.add_assoc]

/-- Behind a line end, reading goes on at the beginning of the next line. -/
theorem past_append_lineEnd {first : List Char} (p : Position) (h : '\n' ∉ first)
    (rest : List Char) :
    p.past (first ++ '\n' :: rest) = (⟨p.line + 1, 0⟩ : Position).past rest := by
  rw [past_append, past_of_notMem p h]
  rfl

/-- Behind the first line end of a text begins the next line. -/
theorem behind_append_lineEnd (front : List Char) {first : List Char} (h : '\n' ∉ first) :
    behind (front ++ (first ++ ['\n'])) = ⟨(behind front).line + 1, 0⟩ := by
  rw [behind_append, past_append_lineEnd _ h, past_nil]

/-- What begins on the next line ends behind this one. -/
theorem line_lt_past_nextLine (line : Nat) (rest : List Char) :
    line < ((⟨line + 1, 0⟩ : Position).past rest).line :=
  line_le_of_le (le_past ⟨line + 1, 0⟩ rest)

end Position

/-! ## Lines -/

namespace Text

theorem head?_modifyHead_append (begun : List Char) {inside back : List Char} (flat : '\n' ∉ inside) :
    ((lines (inside ++ back)).modifyHead (begun ++ ·)).head? =
      some (begun ++ (inside ++ (lines back).headD [])) := by
  induction inside generalizing begun with
  | nil =>
    cases h : lines back with
    | nil => exact absurd h (split_ne_nil '\n' back)
    | cons line others => rw [List.nil_append, h]; rfl
  | cons c inside ih =>
    obtain ⟨hc, hinside⟩ := not_or.1 (mt List.mem_cons.2 flat)
    have shifted := ih (begun ++ [c]) hinside
    rw [List.cons_append, lines_cons_of_ne (Ne.symm hc)]
    cases h : lines (inside ++ back) with
    | nil => exact absurd h (split_ne_nil '\n' _)
    | cons line others =>
      rw [h] at shifted
      simpa using shifted

/-- From the place of a cut on, the lines of a text are those of its second part,
the first of them behind what the first part left on its last line. -/
theorem drop_lines_past (front back : List Char) :
    ∃ begun : List Char,
      byteLength begun = (Position.behind front).column ∧
      (lines (front ++ back)).drop (Position.behind front).line =
        (lines back).modifyHead (begun ++ ·) := by
  -- The cut moves right one character at a time, so that the line it stands on
  -- is only ever continued or finished.
  induction front using List.reverseRecOn generalizing back with
  | nil =>
    refine ⟨[], rfl, ?_⟩
    change lines back = _
    cases lines back <;> rfl
  | append_singleton front c ih =>
    obtain ⟨begun, column, dropped⟩ := ih (c :: back)
    rw [List.append_assoc, List.singleton_append, Position.behind_append, Position.past_cons,
      Position.past_nil]
    by_cases hc : c = '\n'
    · subst hc
      refine ⟨[], rfl, ?_⟩
      rw [Position.after_lineEnd, ← List.drop_drop, dropped, lines_cons_lineEnd]
      cases lines back <;> rfl
    · refine ⟨begun ++ [c], ?_, ?_⟩
      · rw [Position.after_of_ne _ hc, byteLength_append, column]
        simp [Position.advance, byteLength]
      · rw [Position.after_of_ne _ hc, Position.advance, dropped, lines_cons_of_ne hc]
        cases lines back <;> simp

/-- The line on which a cut stands, when the second part goes on with a text
without a line end. -/
theorem getElem?_lines_past (front : List Char) {inside : List Char} (back : List Char)
    (flat : '\n' ∉ inside) :
    ∃ begun : List Char,
      byteLength begun = (Position.behind front).column ∧
      (lines (front ++ (inside ++ back)))[(Position.behind front).line]? =
        some (begun ++ (inside ++ (lines back).headD [])) := by
  obtain ⟨begun, column, dropped⟩ := drop_lines_past front (inside ++ back)
  refine ⟨begun, column, ?_⟩
  rw [← List.head?_drop, dropped, head?_modifyHead_append begun flat]

end Text

namespace Template

/-- The line of a parsed template on which a cut of its source stands. -/
theorem line_parse {source : String} {front inside back : List Char}
    (cut : source.toList = front ++ (inside ++ back)) (flat : '\n' ∉ inside) :
    ∃ begun : List Char,
      Text.byteLength begun = (Position.behind front).column ∧
      (Template.parse source).line (Position.behind front).line =
        begun ++ (inside ++ (Text.lines back).headD []) := by
  obtain ⟨begun, column, found⟩ := Text.getElem?_lines_past front back flat
  refine ⟨begun, column, ?_⟩
  rw [line, line?_parse, cut, found, Option.getD_some]

/-- The last line of a template is the one on which its source ends. -/
theorem lineCount_eq_line_behind (source : String) :
    (Template.parse source).lineCount = (Position.behind source.toList).line + 1 := by
  obtain ⟨begun, -, dropped⟩ := Text.drop_lines_past source.toList []
  have count : (Text.lines source.toList).length - (Position.behind source.toList).line = 1 := by
    have lengths := congrArg List.length dropped
    rw [List.append_nil, List.length_drop] at lengths
    rw [lengths]
    rfl
  rw [lineCount_eq_length_lines]
  omega

/-- A template stops where its source ends. -/
theorem stop_parse (source : String) :
    (Template.parse source).stop = Position.behind source.toList := by
  have cut : source.toList = source.toList ++ ([] ++ []) := by simp
  obtain ⟨_, columnLine, found⟩ := line_parse cut List.not_mem_nil
  rw [stop, lineCount_eq_line_behind, Nat.add_sub_cancel, found, Text.byteLength_append, columnLine]
  rfl

end Template

end Stencil
