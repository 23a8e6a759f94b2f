/-!
Cutting a text at every occurrence of one character. A text without the
separator is its own single part, and a separator at either end leaves an empty
part there. `join_split` says that nothing else is lost.
-/

namespace Stencil.Text

/-- The parts of a text between the separators, in order. -/
def split (separator : Char) : List Char → List (List Char)
  | [] => [[]]
  | c :: cs =>
    match split separator cs with
    | [] => []
    | part :: parts => if c = separator then [] :: part :: parts else (c :: part) :: parts

/-- The parts again as one text, a separator between each two. -/
def join (separator : Char) : List (List Char) → List Char
  | [] => []
  | [part] => part
  | part :: parts => part ++ separator :: join separator parts

theorem split_ne_nil (separator : Char) (cs : List Char) : split separator cs ≠ [] := by
  induction cs with
  | nil => simp [split]
  | cons c cs ih =>
    cases h : split separator cs with
    | nil => exact absurd h ih
    | cons part parts => by_cases hc : c = separator <;> simp [split, h, hc]

theorem split_cons_self (separator : Char) (cs : List Char) :
    split separator (separator :: cs) = [] :: split separator cs := by
  cases h : split separator cs with
  | nil => exact absurd h (split_ne_nil separator cs)
  | cons part parts => simp [split, h]

theorem split_cons_of_ne {separator c : Char} (h : c ≠ separator) (cs : List Char) :
    split separator (c :: cs) = (split separator cs).modifyHead (c :: ·) := by
  cases hs : split separator cs with
  | nil => exact absurd hs (split_ne_nil separator cs)
  | cons part parts => simp [split, hs, h]

theorem split_of_notMem {separator : Char} {cs : List Char} (h : separator ∉ cs) :
    split separator cs = [cs] := by
  induction cs with
  | nil => rfl
  | cons c cs ih =>
    obtain ⟨hc, hcs⟩ := not_or.1 (mt List.mem_cons.2 h)
    rw [split_cons_of_ne (Ne.symm hc), ih hcs]
    rfl

theorem split_append_separator {separator : Char} {first : List Char} (h : separator ∉ first)
    (rest : List Char) : split separator (first ++ separator :: rest) = first :: split separator rest := by
  induction first with
  | nil => exact split_cons_self separator rest
  | cons c first ih =>
    obtain ⟨hc, hfirst⟩ := not_or.1 (mt List.mem_cons.2 h)
    rw [List.cons_append, split_cons_of_ne (Ne.symm hc), ih hfirst]
    rfl

theorem join_split (separator : Char) (cs : List Char) :
    join separator (split separator cs) = cs := by
  induction cs with
  | nil => rfl
  | cons c cs ih =>
    cases h : split separator cs with
    | nil => exact absurd h (split_ne_nil separator cs)
    | cons part parts =>
      rw [h] at ih
      by_cases hc : c = separator
      · simp [split, h, hc, join, ih]
      · cases parts <;> simp_all [split, join]

/-- The lines of a text. Even an empty text has one line. -/
def lines (cs : List Char) : List (List Char) := split '\n' cs

theorem lines_cons_lineEnd (cs : List Char) : lines ('\n' :: cs) = [] :: lines cs :=
  split_cons_self '\n' cs

theorem lines_cons_of_ne {c : Char} (h : c ≠ '\n') (cs : List Char) :
    lines (c :: cs) = (lines cs).modifyHead (c :: ·) :=
  split_cons_of_ne h cs

theorem lines_of_notMem {cs : List Char} (h : '\n' ∉ cs) : lines cs = [cs] :=
  split_of_notMem h

theorem lines_append_lineEnd {first : List Char} (h : '\n' ∉ first) (rest : List Char) :
    lines (first ++ '\n' :: rest) = first :: lines rest :=
  split_append_separator h rest

/-- The parts of a string between the separators. -/
def splitString (separator : Char) (s : String) : List String :=
  (split separator s.toList).map String.ofList

end Stencil.Text
