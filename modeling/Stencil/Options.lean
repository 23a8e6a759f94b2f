/-!
The options of a page.
-/

namespace Stencil

structure Options where
  /-- Shown for a variable that has no text. -/
  placeholder : String := "(XXXX)"
  /-- Whether the values of variables are escaped, those of raw tags excepted. -/
  escapeHtml : Bool := false
  /-- Whether every output line starts with the number of its source line. -/
  lineNumbers : Bool := false
  /-- Whether a template must have matching sections. -/
  strict : Bool := false
  /-- Where requests for data are addressed to. -/
  learnSubject : String := "hosts/_all"
  deriving DecidableEq

end Stencil
