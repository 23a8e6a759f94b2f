import Stencil.Decimal.Shortest

/-!
Laying out a numeral. A `Layout` holds the decisions of an output format: which
exponents are written out with a point, and what a number looks like otherwise.
-/

namespace Stencil.Decimal

/-- The decisions of a number format. -/
structure Layout where
  /-- The smallest exponent of the leading digit that is written positionally. -/
  leastPlain : Int
  /-- The largest such exponent. -/
  greatestPlain : Int
  /-- What follows the digits of a number without a fraction. -/
  wholeEnd : String
  exponentMark : String
  /-- The sign of an exponent that is not negative. -/
  exponentPlus : String

namespace Layout

/-- Positional notation. -/
def plain (l : Layout) (n : Numeral) : String :=
  let length := n.digits.length
  if n.exponent < 0 then
    "0." ++ String.ofList (List.replicate ((-n.exponent).toNat - 1) '0' ++ n.digits)
  else
    let whole := n.exponent.toNat + 1
    if whole < length then
      String.ofList (n.digits.take whole ++ '.' :: n.digits.drop whole)
    else
      String.ofList (n.digits ++ List.replicate (whole - length) '0') ++ l.wholeEnd

/-- One digit, the others behind a point, and the exponent. -/
def scientific (l : Layout) (n : Numeral) : String :=
  let fraction := if n.digits.length ≤ 1 then [] else '.' :: n.digits.drop 1
  let sign := if n.exponent < 0 then "-" else l.exponentPlus
  String.ofList (n.digits.take 1 ++ fraction) ++ l.exponentMark ++ sign ++
    toString n.exponent.natAbs

/-- The text of a double with the fewest digits. -/
def write (l : Layout) (d : Double) : String :=
  let sign := if d.negative then "-" else ""
  if d.significand = 0 then sign ++ "0" ++ l.wholeEnd
  else
    let n := Double.shortest d.significand d.exponent
    sign ++
      (if l.leastPlain ≤ n.exponent ∧ n.exponent ≤ l.greatestPlain then l.plain n
       else l.scientific n)

end Layout

end Stencil.Decimal
