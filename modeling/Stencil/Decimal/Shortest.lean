import Stencil.Decimal.Double

/-!
The fewest decimal digits that read back as a double. The reals that round to
`m * 2 ^ q` form an interval whose ends belong to it when `m` is even. For one
digit, then two and so on, the two neighbours of the double on that decimal grid
are tried; the first grid with a neighbour in the interval wins, of two such
neighbours the nearer, and of two equally near the even one.
-/

namespace Stencil.Decimal

/-- A decimal numeral: `d.ddd * 10 ^ exponent`, where the first digit is not zero. -/
structure Numeral where
  digits : List Char
  exponent : Int
  deriving DecidableEq

namespace Double

/-- So many decimal places behind the point are enough to show a digit of every
double. -/
def deepestPlace : Nat := 400

/-- The decimal exponent of the leading digit of a positive double. A double that
is a multiple of `2 ^ q` also shows a digit in the first `-q` places. -/
def leadingPlace (m : Nat) (q : Int) : Int :=
  let places := min deepestPlace (-q).toNat
  let scaled := m * twoTo q * tenTo places / twoTo (-q)
  ((Nat.toDigits 10 scaled).length : Int) - 1 - places

/-- How a decimal `c * 10 ^ k` compares with quarters of `2 ^ q`: it equals
`c * fst` where one quarter is `snd`. -/
def gridUnits (q k : Int) : Nat × Nat :=
  (tenTo k * twoTo (2 - q), tenTo (-k) * twoTo (q - 2))

/-- The distance of two naturals. -/
def distance (a b : Nat) : Nat := (a - b) + (b - a)

/-- The neighbour on the grid `10 ^ k` that reads back as `m * 2 ^ q`. -/
def onGrid? (m : Nat) (q k : Int) : Option Nat :=
  let (step, quarter) := gridUnits q k
  let value := 4 * m * quarter
  let low := (4 * m - (if m = twoTo (precision - 1) ∧ minExponent < q then 1 else 2)) * quarter
  let high := (4 * m + 2) * quarter
  let readsBack (c : Nat) : Bool :=
    (low < c * step && c * step < high) || (m % 2 = 0 && (c * step = low || c * step = high))
  let below := value / step
  let above := below + 1
  match readsBack below && 0 < below, readsBack above with
  | true, false => some below
  | false, true => some above
  | false, false => none
  | true, true =>
    let down := distance value (below * step)
    let up := distance (above * step) value
    if down < up ∨ (down = up ∧ below % 2 = 0) then some below else some above

/-- The first hit among the grids of `length`, `length + 1`, ... digits. -/
def search (m : Nat) (q place : Int) (length : Nat) : Nat → Option (Nat × Int)
  | 0 => none
  | tries + 1 =>
    let k := place + 1 - length
    match onGrid? m q k with
    | some c => some (c, k)
    | none => search m q place (length + 1) tries

/-- No double needs more digits. -/
def mostDigits : Nat := 17

/-- The shortest numeral of a positive double. -/
def shortest (m : Nat) (q : Int) : Numeral :=
  let place := leadingPlace m q
  let (c, k) := (search m q place 1 mostDigits).getD
    (m * twoTo q * tenTo (-q) / twoTo (-q), min q 0)
  let digits := Nat.toDigits 10 c
  let significant := (digits.reverse.dropWhile (· = '0')).reverse
  ⟨significant, k + digits.length - 1⟩

end Double

end Stencil.Decimal
