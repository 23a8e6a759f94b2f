import Stencil.Json.Writer
import Stencil.Name
import Stencil.Template

/-!
Learn requests: what a page asks the data source to publish. Every variable of a
template is asked for once, by its name behind the names of the sections around
it.
-/

namespace Stencil

/-- A request for one name, addressed to a subject. -/
structure LearnRequest where
  name : String
  subject : String
  deriving DecidableEq

namespace LearnRequest

/-- The message that is sent. -/
def json (r : LearnRequest) : Json :=
  .object [("name", .string r.name), ("type", .string (Tag.kindName none)),
    ("_subject", .string r.subject), ("_command", .string "learn")]

end LearnRequest

/-- The name that a node asks for: variables do, unless their name is all dots. -/
def Outline.Node.requestedName? (n : Outline.Node) : Option String :=
  match n.tag with
  | some tag =>
    if tag.isVariable && !(segments tag.name).isEmpty then
      some (String.intercalate "." (n.ancestors ++ [tag.name]))
    else none
  | none => none

/-- The requests of a template in document order. -/
def Template.learnRequests (t : Template) (subject : String) : List LearnRequest :=
  (t.outline.nodes.filterMap (·.requestedName?)).eraseDups.map (⟨·, subject⟩)

end Stencil
