import Stencil.Error
import Stencil.Json.Grammar
import Stencil.Learn
import Stencil.Options
import Stencil.Render

/-!
A page: a template with the options it is rendered under. It is parsed once and
rendered as often as the data changes.
-/

namespace Stencil

structure Page where
  template : Template
  options : Options

namespace Page

/-- The page of a text under default options. -/
def parse (source : String) : Page := ⟨.parse source, {}⟩

/-- The page of a text; it is refused under the option `strict` if its sections do
not match. -/
def parseWith (options : Options) (source : String) : Except Error Page :=
  ((Template.parseWith options.strict source).map (⟨·, options⟩)).mapError .parse

def render (p : Page) (store : Store) : Rendered := p.template.render store p.options

/-- The text of the page for JSON data, which must be an object. -/
def renderJson (p : Page) (data : Json) : Except Error String :=
  match Store.ofJson data with
  | .ok store => .ok (p.render store).text
  | .error error => .error (.data error)

/-- What the page asks the data source for. -/
def learnRequests (p : Page) : List LearnRequest :=
  p.template.learnRequests p.options.learnSubject

end Page

/-- The document of a text of data. -/
def readData (text : String) : Except Error Json := (Json.parse text).mapError .json

end Stencil
