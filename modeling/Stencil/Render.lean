import Stencil.Html
import Stencil.Options
import Stencil.Rendered
import Stencil.Resolution
import Stencil.Template

/-!
Rendering a template against a store.

The outline says only where the tags are. Rendering walks it with a cursor into
the source: the text between two tags is copied, and each tag is replaced by
what it stands for. The body of a section is the source from its tag to the tag
that closes it, or to the end of the enclosing body; it is walked once per pass,
with the scope of that pass.
-/

namespace Stencil

/-- What a render works with. -/
structure Rendering where
  template : Template
  store : Store
  options : Options

namespace Rendering

/-! ## Copying source text -/

/-- The part of a source line that lies between two places. -/
def lineSlice (t : Template) (start stop : Position) (index : Nat) : List Char :=
  let line := t.line index
  let first := if index = start.line then start.column else 0
  let last := if index = stop.line then stop.column else Text.byteLength line
  (Text.slice? line first last).getD []

/-- The source text from `start` up to `stop`; nothing unless `start` comes first. -/
def copySource (t : Template) (start stop : Position) : List Piece :=
  if stop ≤ start then []
  else
    (List.range' start.line (stop.line + 1 - start.line)).flatMap fun index =>
      let slice := Piece.text (String.ofList (lineSlice t start stop index))
      if index = start.line then [slice] else [.newLine index, slice]

/-! ## Tags -/

/-- What is shown for a variable. Only the text of a value is ever escaped. -/
def variableText (r : Rendering) (tag : Tag) (scope : Path) : String :=
  match r.store.resolve scope tag.name with
  | .ok (.found _ (.scalar text)) =>
    if r.options.escapeHtml && !tag.raw then Html.escape text else text
  | .ok (.found _ _) => r.options.placeholder
  | .ok (.pathText path) => path.text
  | .error _ => r.options.placeholder

/-- The scopes of the passes of a `#` section. -/
def repeatedScopes : Except NotFound Resolution → List Path
  | .error _ => []
  | .ok resolution =>
    let scopeOf (pass : Nat) : Path :=
      match resolution with
      | .found path value => if value.isList then path.withIndex pass else path
      | .pathText path => path
    (List.range resolution.passCount).map scopeOf

/-- The scopes of the passes of a `^` section: one where a `#` section has none. -/
def invertedScopes (scope : Path) : Except NotFound Resolution → List Path
  | .error _ => [scope]
  | .ok resolution => if resolution.passCount = 0 then [resolution.path] else []

/-- The scopes in which the body of a section is shown, one for each pass. -/
def sectionScopes (r : Rendering) (tag : Tag) (scope : Path) : List Path :=
  let resolution := r.store.resolve scope tag.name
  if tag.sigil = some .inverted then invertedScopes scope resolution
  else repeatedScopes resolution

/-! ## Walking the outline -/

/-- The output for the tags of one body, from `cursor` to `boundary`. Tags at or
behind the boundary are left out. -/
def walk (r : Rendering) : Outline → Position → Position → Path → List Piece
  | .nil, cursor, boundary, _ => copySource r.template cursor boundary
  | .cons tag body rest, cursor, boundary, scope =>
    if boundary ≤ tag.position then copySource r.template cursor boundary
    else
      copySource r.template cursor tag.position ++
        if tag.opens then
          let bodyEnd := rest.leadingClose?.elim boundary (·.position)
          (r.sectionScopes tag scope).flatMap (r.walk body tag.stop bodyEnd) ++
            r.walk rest bodyEnd boundary scope
        else if tag.isClosing then r.walk rest tag.stop boundary scope
        else .text (r.variableText tag scope) :: r.walk rest tag.stop boundary scope

/-- The output for the whole template. -/
def pieces (r : Rendering) : List Piece :=
  r.walk r.template.outline .start r.template.stop []

end Rendering

/-- Renders a template against a store. -/
def Template.render (t : Template) (store : Store) (options : Options) : Rendered :=
  .ofPieces options.lineNumbers (Rendering.pieces ⟨t, store, options⟩)

end Stencil
