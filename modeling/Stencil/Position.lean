/-!
Positions in a source text. A line ends at every `\n`, and a column counts the
bytes of the UTF-8 form, so that a position can be compared with the byte width
of a tag without looking at the text again.
-/

namespace Stencil

/-- A place in a source text: a line and a byte column, both counted from zero. -/
structure Position where
  line : Nat
  column : Nat
  deriving DecidableEq

namespace Position

/-- The first place of every text. -/
def start : Position := ⟨0, 0⟩

/-- The place `width` bytes further along the same line. -/
def advance (p : Position) (width : Nat) : Position := ⟨p.line, p.column + width⟩

/-- Document order: an earlier line first, then the smaller column. -/
instance : LT Position where
  lt p q := p.line < q.line ∨ (p.line = q.line ∧ p.column < q.column)

instance : LE Position where
  le p q := p.line < q.line ∨ (p.line = q.line ∧ p.column ≤ q.column)

theorem lt_def {p q : Position} :
    p < q ↔ p.line < q.line ∨ (p.line = q.line ∧ p.column < q.column) := Iff.rfl

theorem le_def {p q : Position} :
    p ≤ q ↔ p.line < q.line ∨ (p.line = q.line ∧ p.column ≤ q.column) := Iff.rfl

instance (p q : Position) : Decidable (p < q) := decidable_of_iff _ lt_def.symm

instance (p q : Position) : Decidable (p ≤ q) := decidable_of_iff _ le_def.symm

theorem not_lt {p q : Position} : ¬ p < q ↔ q ≤ p := by
  simp only [lt_def, le_def]; omega

/-- Readers count lines and columns from one. -/
def describe (p : Position) : String :=
  s!"line {p.line + 1}, column {p.column + 1}"

end Position

end Stencil
