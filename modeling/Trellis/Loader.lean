import Trellis.Path
import Trellis.Table
import Trellis.Tree.Draft

/-!
# Loader

Loaders give the sources of included templates.  A loader is asked for a path as it is written at a
location, either for a text or for a tree.

* `Sources` are texts and trees under paths in normal form.  A draft of a tree is built when it is
  first asked for, and the node takes its place, so that what is remembered of it lasts.
* A loader without sources finds nothing.
* Any other answer to a path and a location makes a loader too.
-/

namespace Trellis

/-- What can be stored under a path. -/
inductive Source where
  | text (s : String)
  | node (n : Node)
  /-- A list or a dictionary. -/
  | draft (v : Value)
  | other (v : Value)

namespace Source

/-- The source that a value is. -/
def ofValue : Value → Source
  | .text s => text s
  | .list vs => draft (.list vs)
  | .dict es => draft (.dict es)
  | v => other v

/-- The name of a source's type. -/
def typeName : Source → String
  | text _ => "str"
  | node _ => "Node"
  | draft v => v.typeName
  | other v => v.typeName

/-- The source counts as absent. -/
def isAbsent : Source → Bool
  | other .none => true
  | _ => false

end Source

/-- Sources under paths in normal form. -/
abbrev Sources := List (String × Source)

namespace Sources

/-- A source under a path. -/
def assign (t : Sources) (path : String) (s : Source) : Sources :=
  Table.put (Path.normal path) s t

/-- Sources under given paths. -/
def ofList (es : List (String × Source)) : Sources :=
  es.foldl (fun t e => t.assign e.1 e.2) []

/-- The source that is stored under exactly this path. -/
def stored? (t : Sources) (path : String) : Option Source :=
  (Table.get? path t).filter fun s => !s.isAbsent

/-- The source of a path: the one stored under it, or else under the path without slashes at the
front. -/
def find? (t : Sources) (path : String) : Option Source :=
  match t.stored? path with
  | some s => some s
  | none => t.stored? (Path.relative path)

/-- The source of a path and what is stored afterwards: the node of a draft is stored under the path
that was asked for. -/
def load (t : Sources) (path : String) : Draft.Build (Source × Sources) :=
  match t.find? path with
  | none => throw (.template (.pathNotFound path) .none)
  | some (.draft v) => do
    let n ← (Draft.ofValue v).node
    return (.node n, Table.put path (.node n) t)
  | some s => pure (s, t)

end Sources

/-- What a loader answers. -/
inductive Loaded where
  | text (s : String)
  /-- A tree and the location that its own includes start from. -/
  | tree (d : Draft) (location : Option String)

/-- What is asked for. -/
inductive Wanted where
  | text
  | tree
  deriving DecidableEq, Repr

/-- Loaders. -/
inductive Loader where
  | sources (t : Sources)
  | empty
  | custom (answer : String → Option String → Wanted → Except Fault Loaded)

namespace Loader

/-- The path that is looked up. -/
def canonical (path : String) (location : Option String) : Loader → String
  | sources _ => Path.canonical path location
  | _ => path

/-- The answer with a source, as the request `path` asked for it. -/
def serve (path : String) (wanted : Wanted) (canonical : String) : Source → Except Fault Loaded
  | .text s =>
    match wanted with
    | .text => .ok (.text s)
    | .tree => .error (.template (.textForTree path) .none)
  | .node n =>
    match wanted with
    | .text => .error (.template (.treeForText path) .none)
    | .tree => .ok (.tree (.finished n) (some canonical))
  | _ =>
    match wanted with
    | .text => .error (.template (.treeForText path) .none)
    | .tree => .error (.template (.textForTree path) .none)

end Loader
end Trellis
