import Stencil.Template

/-!
Templates with an identity. A template that several owners hold is known by a
serial number, so that an owner can tell whether it was given the template it
already has or a newly parsed one with perhaps the same text.
-/

namespace Stencil

/-- A template and the serial number of the parse that made it. -/
structure SharedTemplate where
  serial : Nat
  template : Template
  deriving DecidableEq

end Stencil
