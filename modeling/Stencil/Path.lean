import Stencil.Name
import Stencil.Text.Digits

/-!
Paths into a data store: keys, and indices into lists. In dotted text a segment
of digits is an index if it fits into 64 bits, and any other segment is a key.
-/

namespace Stencil

/-- One step of a path. -/
inductive Step
  | key (name : String)
  | index (position : Nat)
  deriving DecidableEq

namespace Step

/-- The bound of indices: two to the power 64. -/
def indexLimit : Nat := 18446744073709551616

/-- The step written by one segment of dotted text. -/
def ofSegment (segment : String) : Step :=
  match Text.decimal? segment.toList with
  | some n => if n < indexLimit then index n else key segment
  | none => key segment

/-- The key that a step is in a mapping. -/
def text : Step → String
  | key name => name
  | index position => toString position

def isIndex : Step → Bool
  | key _ => false
  | index _ => true

def key? : Step → Option String
  | key name => some name
  | index _ => none

def index? : Step → Option Nat
  | key _ => none
  | index position => some position

end Step

abbrev Path := List Step

namespace Path

/-- The path of dotted text. Empty segments are dropped. -/
def parse (dotted : String) : Path := (segments dotted).map Step.ofSegment

def text (p : Path) : String := String.intercalate "." (p.map Step.text)

def keys (p : Path) : List String := p.filterMap Step.key?

def indices (p : Path) : List Nat := p.filterMap Step.index?

def withIndex (p : Path) (position : Nat) : Path := p ++ [.index position]

/-- The first `length` steps, followed by `tail`. -/
def prefixJoin (p : Path) (length : Nat) (tail : Path) : Path := p.take length ++ tail

/-- The length of a prefix without the indices at its end. -/
def withoutIndices (p : Path) : Nat → Nat
  | 0 => 0
  | length + 1 => if (p[length]?.any Step.isIndex) then withoutIndices p length else length + 1

theorem withoutIndices_le (p : Path) (length : Nat) : p.withoutIndices length ≤ length := by
  induction length with
  | zero => simp [withoutIndices]
  | succ n ih =>
    unfold withoutIndices
    split
    · exact Nat.le_succ_of_le ih
    · exact Nat.le_refl _

/-- The length of what is left of a prefix when its last key is dropped together
with the indices behind it. -/
def parentLength (p : Path) (length : Nat) : Nat :=
  p.withoutIndices (min length p.length) - 1

theorem parentLength_lt {p : Path} {length : Nat} (h : 0 < length) :
    p.parentLength length < length := by
  have := p.withoutIndices_le (min length p.length)
  unfold parentLength
  omega

/-- The lengths of the prefixes that a name is looked up under, from `length`
down: each drops a key with its indices, and the last is empty. -/
def cutLengths (p : Path) (length : Nat) : List Nat :=
  if length = 0 then [0] else length :: p.cutLengths (p.parentLength length)
termination_by length
decreasing_by exact parentLength_lt (Nat.pos_of_ne_zero ‹_›)

end Path

end Stencil
