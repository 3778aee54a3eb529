import Trellis.Render.World
import Trellis.Text.Escape
import Trellis.Tree.Symbol

/-!
# Render — Engine

An engine is what a template is rendered with: a configuration, a way to evaluate expressions, and
the numbers of its loader, plugins and tracker in the world.  Its mixins live in the world under the
engine's own number, and what it remembers of nodes is marked with it.
-/

namespace Trellis

/-- Plain text as markup, for values of any type. -/
abbrev Escape := Value → Except Cause Value

/-- The five characters of markup become entities; what is no text stands for its own form. -/
def Escape.markup : Escape := fun v => .ok (.text (Text.escape v.plain))

/-- What can be configured. -/
structure Config where
  escape : Escape
  /-- The markup of static tags is remembered. -/
  compact : Bool
  /-- The end of the paths of trees. -/
  treeExtension : Value
  /-- Where the names of the tags occur that are never closed. -/
  voidTags : Value
  packagePrefix : Value

namespace Config

/-- The usual configuration. -/
def default : Config :=
  { escape := Escape.markup
    compact := true
    treeExtension := .text ".min"
    voidTags := .list (Tag.void.map .text)
    packagePrefix := .text Registry.defaultPrefix }

/-- The names of the parameters. -/
def parameters : List String :=
  ["escape_function", "compact", "prerendered_ext", "void_tags", "plugin_prefix"]

/-- The given names that no parameter has. -/
def unknown (given : List String) : List String :=
  given.filter fun name => !parameters.contains name

end Config

/-- What a template is rendered with. -/
structure Engine where
  id : Nat
  config : Config
  evaluation : Evaluation
  loader : Option Nat
  registry : Nat
  tracker : Option Nat

namespace Engine

/-- The value of an expression at a position. -/
def evaluate (eng : Engine) (scope : Scope) (position text : Value) : Rendering Value := do
  Rendering.note (.evaluated eng.id scope position text)
  Rendering.onHeap (eng.evaluation scope position text)

/-- A value as it is put into markup. -/
def escape (eng : Engine) (v : Value) : Rendering Value :=
  Rendering.ofCause (eng.config.escape v)

/-! ### Mixins -/

/-- The mixin of a name. -/
def mixin? (eng : Engine) (name : String) : Rendering (Option Mixin) := do
  return Table.get? name ((← get).mixinsOf eng.id)

/-- A mixin is defined, possibly anew. -/
def define (eng : Engine) (name : String) (m : Mixin) : Rendering Unit := do
  let known ← eng.mixin? name
  Rendering.note (if known.isSome then .redefining name else .defining name m.params)
  modify fun w =>
    { w with mixins := w.mixins.setIfInBounds eng.id (Table.put name m (w.mixinsOf eng.id)) }

/-! ### Loading -/

/-- The answer of the sources with a number. -/
def loadFrom (number : Nat) (t : Sources) (path canonical : String) (wanted : Wanted) :
    Rendering Loaded := do
  let (s, t') ← Rendering.build (t.load canonical)
  modify fun w => { w with loaders := w.loaders.setIfInBounds number (.sources t') }
  Rendering.ofExcept (Loader.serve path wanted canonical s)

/-- The answer of a loader. -/
def load (number : Nat) (path : String) (location : Option String) (wanted : Wanted) :
    Rendering Loaded := do
  let loader := (← get).loaders.getD number .empty
  match loader with
  | .custom answer => Rendering.ofExcept (answer path location wanted)
  | .empty => do
    Rendering.note (.resolving path location path)
    Rendering.complain (.pathNotFound path) .none
  | .sources t => do
    let canonical := Path.canonical path location
    Rendering.note (.resolving path location canonical)
    loadFrom number t path canonical wanted

/-- What the engine's loader answers. -/
def request (eng : Engine) (path : String) (location : Option String) (wanted : Wanted) :
    Rendering Loaded :=
  match eng.loader with
  | none => Rendering.complain (.noLoader path) .none
  | some number => do
    Rendering.note (.requested path location wanted)
    load number path location wanted

/-- The text of a source. -/
def text (eng : Engine) (path : String) (location : Option String) : Rendering String := do
  match ← eng.request path location .text with
  | .text s => return s
  | .tree .. => Rendering.complain (.treeForText path) .none

/-- The tree of a source, and the location that its own includes start from. -/
def tree (eng : Engine) (path : String) (location : Option String) :
    Rendering (Node × Option String) := do
  match ← eng.request path location .tree with
  | .tree d l => return (← Rendering.build d.node, l)
  | .text _ => Rendering.complain (.textForTree path) .none

/-- An include is tracked. -/
def track (eng : Engine) (location : Option String) (path : String) : Rendering Unit :=
  match eng.tracker with
  | none => pure ()
  | some number => do
    Rendering.note (.tracked location path)
    modify fun w =>
      let t := (w.trackers.getD number Tracker.empty).record location path
      { w with trackers := w.trackers.setIfInBounds number t }

/-! ### Plugins -/

/-- The plugins of the engine. -/
def plugins (eng : Engine) : Rendering Registry := do
  return (← get).registries.getD eng.registry (Registry.empty eng.config.packagePrefix)

/-- The plugin of a name, asked for at a position. -/
def plugin (eng : Engine) (name : String) (position : Value) : Rendering Plugin := do
  Rendering.ofExcept ((← eng.plugins).load name position)

/-- One more plugin. -/
def register (eng : Engine) (o : Offer) (name : Option String) : Rendering Plugin := do
  let (r, n, p) ← Rendering.ofExcept ((← eng.plugins).register o name)
  modify fun w => { w with registries := w.registries.setIfInBounds eng.registry r }
  Rendering.note (.registered n p.shown)
  return p

/-- Plugins under names, one after the other. -/
def registerAll (eng : Engine) : List (String × Offer) → Rendering Unit
  | [] => pure ()
  | (n, o) :: os => do
    let _ ← eng.register o (some n)
    eng.registerAll os

/-- Plugins that are found under names at some origin. -/
def discover (eng : Engine) : List (String × String × Offer) → Rendering Unit
  | [] => pure ()
  | (n, origin, o) :: os => do
    Rendering.note (.discovered n origin)
    let _ ← eng.register o (some n)
    eng.discover os

/-! ### Memos -/

/-- The markup that the engine remembers of a node. -/
def remembered? (eng : Engine) (n : Node) : Rendering (Option Value) := do
  let m := (← get).memo n.id
  return if m.owner = some eng.id && eng.config.compact then m.html else none

/-- The markup of a node is remembered. -/
def remember (eng : Engine) (n : Node) (html : String) : Rendering Unit :=
  modify fun w => w.setMemo n.id ⟨some (.text html), some eng.id⟩

end Engine
end Trellis
