import Trellis.Table
import Trellis.Value.Fault

/-!
# Plugin

Plugins turn the text of a source and the attributes of the calling node into markup.  A registry
keeps plugins under names.  The result of a plugin is the markup itself, or has it as its body.
-/

namespace Trellis

/-- A plugin: its form in messages, the name it brings, and what it does, unless it does nothing
at all. -/
structure Plugin where
  shown : String
  name : Option String
  transform : Option (String → List (Value × Value) → Except Fault Value)

/-- What can be registered: a plugin, or a class of which one is made. -/
inductive Offer where
  | ready (p : Plugin)
  | made (p : Plugin)
  /-- No plugin can be had: none can be made of the class, or what is found cannot be loaded. -/
  | failing (f : Fault)

/-- The plugin of an offer. -/
def Offer.plugin : Offer → Except Fault Plugin
  | ready p => .ok p
  | made p => .ok p
  | failing f => .error f

/-- Plugins under names, and what is put in front of a name to give that of a package. -/
structure Registry where
  plugins : List (String × Plugin)
  packagePrefix : Value

namespace Registry

/-- How package names start unless something else is said. -/
def defaultPrefix : String := "mintag-"

/-- No plugins.  The empty value stands for the usual start of package names. -/
def empty (packagePrefix : Value) : Registry :=
  match packagePrefix with
  | .none => ⟨[], .text defaultPrefix⟩
  | v => ⟨[], v⟩

/-- The package that a plugin of a name would come from. -/
def package (r : Registry) (name : String) : String :=
  r.packagePrefix.plain ++ name

/-- The name that a plugin goes by: a given one unless it is empty, else its own. -/
def nameFor (given : Option String) (p : Plugin) : Option String :=
  match given with
  | some n => if n.isEmpty then p.name else some n
  | none => p.name

/-- The registry with one more plugin under a name, and that name and plugin. -/
def register (r : Registry) (o : Offer) (given : Option String) :
    Except Fault (Registry × String × Plugin) := do
  let p ← o.plugin
  match nameFor given p with
  | none => .error (.template (.unnamedPlugin p.shown) .none)
  | some n =>
    if n.isEmpty then .error (.template (.unnamedPlugin p.shown) .none)
    else if p.transform.isNone then .error (.template (.inertPlugin n) .none)
    else .ok ({ r with plugins := Table.put n p r.plugins }, n, p)

/-- The plugin of a name, asked for at a position. -/
def load (r : Registry) (name : String) (position : Value) : Except Fault Plugin :=
  match Table.get? name r.plugins with
  | some p => .ok p
  | none => .error (.template (.pluginNotInstalled (r.package name)) position)

end Registry

namespace Plugin

/-- The body of a result. -/
def body? : Value → Option Value
  | .dict es => Value.lookup? (.text "body") es
  | .object fs => fs.lookup "body"
  | _ => none

/-- The markup in a result. -/
def markup (result : Value) : Except Fault Value :=
  match result with
  | .text s => .ok (.text s)
  | r =>
    match body? r with
    | some .none | none => .error (.template (.pluginResult r.shortTypeName) .none)
    | some b => .ok b

/-- The markup that a plugin makes of a source. -/
def call (p : Plugin) (source : String) (attributes : List (Value × Value)) : Except Fault Value :=
  match p.transform with
  | some f => (f source attributes).bind markup
  | none => .error (.basic (.notCallable p.shown))

end Plugin
end Trellis
