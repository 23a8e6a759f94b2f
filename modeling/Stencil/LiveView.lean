import Stencil.Render
import Stencil.SharedTemplate

/-!
A live view renders a template again whenever its data has changed. Whoever
changes the data notifies the view, and a flush renders once for all the
notices since the last render.
-/

namespace Stencil

/-- What output is published to. -/
class Sink (σ : Type) where
  publish : σ → Rendered → σ

/-- A list of texts keeps every text, newest last. -/
instance : Sink (List String) where
  publish texts rendered := texts ++ [rendered.text]

/-- A list of outputs keeps every output, newest last. -/
instance : Sink (List Rendered) where
  publish outputs rendered := outputs ++ [rendered]

/-- A template bound to a sink. -/
structure LiveView (σ : Type) where
  shared : SharedTemplate
  options : Options
  sink : σ
  /-- Whether the next flush renders. -/
  dirty : Bool
  /-- The number of renders so far. -/
  renderCount : Nat

namespace LiveView

variable {σ : Type}

/-- A new view renders at its first flush. -/
def new (shared : SharedTemplate) (options : Options) (sink : σ) : LiveView σ :=
  ⟨shared, options, sink, true, 0⟩

/-- Takes notice of a change. -/
def notify (v : LiveView σ) : LiveView σ := { v with dirty := true }

/-- Renders and publishes. -/
def refresh [Sink σ] (v : LiveView σ) (store : Store) : Rendered × LiveView σ :=
  let rendered := v.shared.template.render store v.options
  (rendered,
    { v with
      sink := Sink.publish v.sink rendered
      dirty := false
      renderCount := v.renderCount + 1 })

/-- Renders and publishes if there was any change, and says whether it did. -/
def flush [Sink σ] (v : LiveView σ) (store : Store) : Bool × LiveView σ :=
  if v.dirty then (true, (v.refresh store).2) else (false, v)

/-- Takes a template in the place of the present one. The same template again is
no change. -/
def replace (v : LiveView σ) (shared : SharedTemplate) : LiveView σ :=
  if shared = v.shared then v else { v with shared, dirty := true }

end LiveView

end Stencil
