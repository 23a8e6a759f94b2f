/-!
Doubles: the numbers with 53 binary digits that JSON texts are rounded to.

A finite double is a sign and `significand * 2 ^ exponent`. Everything here is
exact arithmetic on naturals; `nearest?` rounds a quotient to the nearest double
and a tie to the even one.
-/

namespace Stencil.Decimal

/-- A finite double. -/
structure Double where
  negative : Bool
  significand : Nat
  exponent : Int
  deriving DecidableEq

namespace Double

/-- The number of binary digits of a significand. -/
def precision : Nat := 53

/-- The exponent of the smallest doubles. -/
def minExponent : Int := -1074

/-- The exponent of the largest doubles. -/
def maxExponent : Int := 971

def zero (negative : Bool) : Double := ⟨negative, 0, minExponent⟩

/-- Two to a power, or 1 for a negative one. -/
def twoTo (power : Int) : Nat := Nat.pow 2 power.toNat

/-- Ten to a power, or 1 for a negative one. -/
def tenTo (power : Int) : Nat := Nat.pow 10 power.toNat

/-- The integer nearest to a quotient, of two the even one. -/
def roundQuotient (num den : Nat) : Nat :=
  let floor := num / den
  let twice := 2 * (num % den)
  if twice < den ∨ (twice = den ∧ floor % 2 = 0) then floor else floor + 1

/-- The quotient of `num / den` and `2 ^ exponent`, as a quotient again. -/
def scaled (num den : Nat) (exponent : Int) : Nat × Nat :=
  (num * twoTo (-exponent), den * twoTo exponent)

/-- The exponent at which the quotient has a significand of full length, or the
smallest exponent. The logarithms find it but for one. -/
def exponentFor (num den : Nat) : Int :=
  let guess : Int := max ((num.log2 : Int) - den.log2 - precision) minExponent
  let (n, d) := scaled num den guess
  if n / d < twoTo precision then guess else guess + 1

/-- The double nearest to `num / den`, where `den` is positive; `none` above the
largest double. -/
def nearest? (negative : Bool) (num den : Nat) : Option Double :=
  let exponent := exponentFor num den
  let (n, d) := scaled num den exponent
  let rounded := roundQuotient n d
  let (significand, exponent) :=
    if rounded = twoTo precision then (twoTo (precision - 1), exponent + 1) else (rounded, exponent)
  if maxExponent < exponent then none else some ⟨negative, significand, exponent⟩

/-- A decimal whose leading digit stands at this place or above is larger than
every double; below the opposite place it rounds to zero. -/
def decimalReach : Int := 400

/-- The double nearest to `digits * 10 ^ exponent`; `none` above the largest.

There is one rounding here. A reader that rounds the digits to a double and then
multiplies or divides that by a power of ten rounds twice, and a number with many
digits or a large exponent can come out one unit in the last place away: `3e23` is
`3e+23` here, and `2.9999999999999997e+23` there. -/
def ofDecimal? (negative : Bool) (digits : Nat) (exponent : Int) : Option Double :=
  let place := exponent + (Nat.toDigits 10 digits).length
  if digits = 0 ∨ place < -decimalReach then some (zero negative)
  else if decimalReach < place then none
  else nearest? negative (digits * tenTo exponent) (tenTo (-exponent))

end Double

end Stencil.Decimal
