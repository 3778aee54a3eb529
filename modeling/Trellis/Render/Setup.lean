import Trellis.Render.Group

/-!
# Render — Setup

New engines, which may share the loader or the plugins of others, and new fields for nodes that
are in use.
-/

namespace Trellis

/-- The loader of a new engine. -/
inductive LoaderChoice where
  | fresh (l : Loader)
  | shared (number : Option Nat)

/-- The plugins of a new engine. -/
inductive PluginChoice where
  | fresh (offers : List (String × Offer))
  | shared (registry : Nat)

/-- What a new engine is made of. -/
structure Setup where
  config : Config
  /-- Names that were given for parameters and are none (`Config.unknown`). -/
  unknown : List String
  loader : LoaderChoice
  plugins : PluginChoice
  /-- Plugins that are found, with their names and origins. -/
  discovered : List (String × String × Offer)
  tracked : Bool
  evaluation : Evaluation

namespace Setup

/-- The usual configuration, without loader, plugins and tracker. -/
def plain : Setup :=
  { config := Config.default
    unknown := []
    loader := .shared none
    plugins := .fresh []
    discovered := []
    tracked := false
    evaluation := Expr.evaluation Scope.builtin }

/-- The number of the loader. -/
def placeLoader : LoaderChoice → Rendering (Option Nat)
  | .shared number => pure number
  | .fresh l => do
    let w ← get
    set { w with loaders := w.loaders.push l }
    return some w.loaders.size

/-- The number of the registry, which is new and empty unless it is shared. -/
def placeRegistry (packagePrefix : Value) : PluginChoice → Rendering Nat
  | .shared number => pure number
  | .fresh _ => do
    let w ← get
    set { w with registries := w.registries.push (Registry.empty packagePrefix) }
    return w.registries.size

/-- The number of a new tracker, if one is wanted. -/
def placeTracker : Bool → Rendering (Option Nat)
  | false => pure none
  | true => do
    let w ← get
    set { w with trackers := w.trackers.push Tracker.empty }
    return some w.trackers.size

/-- The number of a new table of mixins. -/
def placeMixins : Rendering Nat := do
  let w ← get
  set { w with mixins := w.mixins.push [] }
  return w.mixins.size

/-- The plugins that a new engine registers. -/
def offers : PluginChoice → List (String × Offer)
  | .fresh os => os
  | .shared _ => []

/-- A new engine.  Plugins that were registered before one that fails stay registered. -/
def create (s : Setup) : Rendering Engine := do
  if !s.unknown.isEmpty then Rendering.fail (.unknownParameters (Text.sorted s.unknown))
  let loader ← placeLoader s.loader
  let registry ← placeRegistry s.config.packagePrefix s.plugins
  let tracker ← placeTracker s.tracked
  let id ← placeMixins
  let eng : Engine := ⟨id, s.config, s.evaluation, loader, registry, tracker⟩
  eng.registerAll (offers s.plugins)
  eng.discover s.discovered
  return eng

end Setup

namespace Source

/-- The source with the node of an identity replaced. -/
def assign (id : Nat) (new : Node) : Source → Source
  | node n => node (n.assign id new)
  | s => s

end Source

namespace Loader

/-- The loader with the node of an identity replaced. -/
def assign (id : Nat) (new : Node) : Loader → Loader
  | sources t => sources (t.map fun e => (e.1, e.2.assign id new))
  | l => l

end Loader

namespace World

/-- The world in which the node of an identity has other fields, wherever it occurs. -/
def assign (w : World) (id : Nat) (new : Node) : World :=
  { w with
    loaders := w.loaders.map (·.assign id new)
    mixins := w.mixins.map fun t =>
      t.map fun e => (e.1, { e.2 with body := e.2.body.assign id new }) }

/-- The world in which other markup is remembered of a node, as made by the same engine. -/
def setHtml (w : World) (id : Nat) (html : Option Value) : World :=
  w.setMemo id { w.memo id with html }

end World

namespace Engine

/-- The depth to which templates are rendered, and the number of rounds of a loop. -/
def usualDepth : Nat := 1000000

/-- The markup of a draft, within a depth. -/
def renderWithin (eng : Engine) (depth : Nat) (d : Draft) (scope : Scope)
    (location : Option String) : Rendering String := do
  match d with
  | .value .none => Rendering.complain .noTree .none
  | d => do eng.render depth (← Rendering.build d.node) scope location

/-- The markup of a draft. -/
def renderDraft (eng : Engine) (d : Draft) (scope : Scope) (location : Option String) :
    Rendering String :=
  eng.renderWithin usualDepth d scope location

end Engine
end Trellis
