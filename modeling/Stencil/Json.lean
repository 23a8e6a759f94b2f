import Stencil.Decimal.Notation
import Stencil.Fields

/-!
JSON documents. Objects keep their members in the order in which the keys first
came. A number is an integer of 64 bits or a double.
-/

namespace Stencil

namespace Json

inductive Number
  | integer (value : Int)
  | double (value : Decimal.Double)
  deriving DecidableEq

/-- Doubles are written with the fewest digits. Up to sixteen digits before the
point and four zeros behind it they are positional, and they always show that
they are no integers. -/
def doubleLayout : Decimal.Layout where
  leastPlain := -5
  greatestPlain := 15
  wholeEnd := ".0"
  exponentMark := "e"
  exponentPlus := "+"

def Number.text : Number → String
  | .integer n => toString n
  | .double d => doubleLayout.write d

end Json

inductive Json
  | null
  | bool (value : Bool)
  | number (value : Json.Number)
  | string (text : String)
  | array (items : List Json)
  | object (members : List (String × Json))

/-- The word for the kind of a document. -/
def Json.kindName : Json → String
  | null => "null"
  | bool _ => "boolean"
  | number _ => "number"
  | string _ => "string"
  | array _ => "array"
  | object _ => "object"

end Stencil
