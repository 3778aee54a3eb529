import Trellis.Render.Engine
import Trellis.Render.Role
import Trellis.Render.Markup
import Trellis.Value.Walk

/-!
# Render — Group

Rendering of siblings.  A `Group` is the state that passes from one sibling to the next: whether
anything in front depends on the scope, and the condition that awaits an alternative.  While one
does, all siblings but alternatives are skipped.

Everything here is given `body`, which renders the children of a node as a group of their own;
`Render.body` ties the knot.
-/

namespace Trellis

/-- The state of a group of siblings. -/
structure Group where
  /-- Something in front depends on the scope. -/
  isDynamic : Bool
  /-- The condition that failed and awaits an alternative. -/
  pending : Option Node

namespace Group

/-- The state at the front. -/
def start : Group := ⟨false, none⟩

/-- Something depends on the scope. -/
def dynamic (g : Group) : Group := { g with isDynamic := true }

/-- The condition `n` has failed. -/
def await (n : Node) (g : Group) : Group := { g with isDynamic := true, pending := some n }

/-- An alternative has been taken. -/
def settle (g : Group) : Group := { g with isDynamic := true, pending := none }

end Group

/-- Where a template is rendered: the scope, and the location of the template. -/
structure Place where
  scope : Scope
  location : Option String

/-- Renders the children of a node, and tells whether they depend on the scope. -/
abbrev Body := Node → Place → Rendering (String × Bool)

namespace Render

/-- The value of an expression of a node. -/
def evaluate (eng : Engine) (p : Place) (n : Node) (text : Value) : Rendering Value :=
  eng.evaluate p.scope n.position text

/-- The truth of an expression of a node. -/
def test (eng : Engine) (p : Place) (n : Node) (text : Value) : Rendering Bool := do
  let v ← evaluate eng p n text
  Rendering.onHeap (Action.truth v)

/-- The children of a node as a piece of markup. -/
def inside (body : Body) (n : Node) (p : Place) : Rendering Value := do
  return .text (← body n p).1

/-! ### Content -/

/-- The content of a text or tag: plain text that is escaped, an expression, or markup. -/
def content (eng : Engine) (p : Place) (n : Node) (g : Group) : Rendering (Value × Group) := do
  if n.unescaped then return (← eng.escape n.content, g)
  else
    match Header.expression? (← Rendering.ofCause (Markup.searchable n.content)) with
    | none => return (n.content, g)
    | some e => do
      let v ← evaluate eng p n (.text (Markup.expression e))
      let t ← Rendering.onHeap (Action.embedded v)
      return (← eng.escape (.text t), g.dynamic)

/-- A text. -/
def text (eng : Engine) (p : Place) (n : Node) (g : Group) : Rendering (Value × Group) := do
  let (v, g) ← content eng p n g
  return (← Rendering.ofCause (Markup.appendTo " " v), g)

/-- A comment. -/
def comment (n : Node) (g : Group) : Rendering (Value × Group) := do
  return (← Rendering.ofCause (Markup.comment n.content), g)

/-! ### Control -/

/-- A condition. -/
def condition (eng : Engine) (body : Body) (p : Place) (n : Node) (g : Group) :
    Rendering (Value × Group) := do
  if ← test eng p n n.content then return (← inside body n p, g.dynamic)
  else return (.text "", g.await n)

/-- The condition of an alternative holds, or it has none. -/
def alternativeHolds (eng : Engine) (p : Place) (n : Node) : Rendering Bool := do
  match Header.condition? (← Rendering.ofCause (Markup.searchable n.content)) with
  | none => return true
  | some c => test eng p n (.text (String.ofList c))

/-- An alternative.  It counts only while a condition awaits one. -/
def alternative (eng : Engine) (body : Body) (p : Place) (n : Node) (g : Group) :
    Rendering (Value × Group) := do
  if g.pending.isNone then return (.text "", g)
  else if ← alternativeHolds eng p n then return (← inside body n p, g.settle)
  else return (.text "", g.dynamic)

/-- The children over and over while a condition holds, at most `limit` times, after what is
written already. -/
def whileHolds (eng : Engine) (body : Body) (p : Place) (n : Node) :
    (limit : Nat) → (written : String) → Rendering String
  | 0, _ => throw .exhausted
  | limit + 1, written => do
    if ← test eng p n n.content then
      let (s, _) ← body n p
      whileHolds eng body p n limit (written ++ s)
    else return written

/-- A loop under a condition. -/
def whileLoop (eng : Engine) (body : Body) (limit : Nat) (p : Place) (n : Node) (g : Group) :
    Rendering (Value × Group) := do
  return (.text (← whileHolds eng body p n limit ""), g.dynamic)

/-- What the names of a loop are bound to: the first to the key, the second, unless it is empty, to
the item. -/
def bindings (names : List String) (key item : Value) : Scope :=
  match names with
  | k :: v :: _ =>
    Scope.extend [(.text k, key)] (if v.isEmpty then [] else [(.text v, item)])
  | [k] => [(.text k, key)]
  | [] => []

/-- The children once for each pair of the walk, at most `limit` times, after what is written
already. -/
def forEach (body : Body) (p : Place) (n : Node) (names : List String) :
    (limit : Nat) → Walk → (written : String) → Rendering String
  | 0, _, _ => throw .exhausted
  | limit + 1, w, written => do
    match ← Rendering.onHeap w.next with
    | none => return written
    | some ((key, item), w) => do
      let (s, _) ← body n { p with scope := p.scope.extend (bindings names key item) }
      forEach body p n names limit w (written ++ s)

/-- The names of a loop, the first of which is not empty, and its collection. -/
def loopHeader (n : Node) : Rendering (List String × String) := do
  let missing := Rendering.complain (.noLoopVariable n.content.plain) n.position
  match Header.loop? (← Rendering.ofCause (Markup.searchable n.content)) with
  | none => missing
  | some (targets, e) =>
    let names := Header.names targets
    if names.head?.all (·.isEmpty) then missing else return (names, String.ofList e)

/-- A loop over a collection. -/
def forLoop (eng : Engine) (body : Body) (limit : Nat) (p : Place) (n : Node) (g : Group) :
    Rendering (Value × Group) := do
  let (names, e) ← loopHeader n
  let collection ← evaluate eng p n (.text e)
  let walk ← Rendering.onHeap (Walk.start collection)
  return (.text (← forEach body p n names limit walk ""), g.dynamic)

/-! ### Mixins, plugins and includes -/

/-- The definition of a mixin. -/
def definition (eng : Engine) (name : String) (n : Node) (g : Group) :
    Rendering (Value × Group) := do
  eng.define name ⟨n, n.attributes.map (·.1)⟩
  return (.text "", g.dynamic)

/-- The values of expressions of a node, in order. -/
def evaluateAll (eng : Engine) (p : Place) (n : Node) : List Value → Rendering (List Value)
  | [] => pure []
  | e :: es => do
    let v ← evaluate eng p n e
    return v :: (← evaluateAll eng p n es)

/-- The call of a mixin, with the values of the attributes' names as arguments. -/
def call (eng : Engine) (body : Body) (name : String) (p : Place) (n : Node) (g : Group) :
    Rendering (Value × Group) := do
  match ← eng.mixin? name with
  | none => Rendering.complain (.unknownMixin name) n.position
  | some m => do
    let args ← evaluateAll eng p n (n.attributes.map (·.1))
    return (← inside body m.body { p with scope := m.bind p.scope args }, g.dynamic)

/-- The markup that a plugin makes of a source. -/
def plugin (eng : Engine) (name : String) (p : Place) (n : Node) (g : Group) :
    Rendering (Value × Group) := do
  let q ← eng.plugin name n.position
  let path ← Rendering.ofCause (Markup.stripped n.content)
  let source ← eng.text path p.location
  Rendering.note (.transformed name source n.attributes)
  return (← Rendering.ofExcept (q.call source n.attributes), g.dynamic)

/-- The path is the one of a tree. -/
def isTreePath (eng : Engine) (path : String) : Except Cause Bool :=
  match eng.config.treeExtension with
  | .text e => .ok (e.toList.isSuffixOf path.toList)
  | v => .error (.affix "endswith" v.typeName)

/-- An include: a tree is rendered in place, a text is taken as it is. -/
def inclusion (eng : Engine) (body : Body) (p : Place) (n : Node) (g : Group) :
    Rendering (Value × Group) := do
  let path ← Rendering.ofCause (Markup.stripped n.content)
  eng.track p.location path
  if ← Rendering.ofCause (isTreePath eng path) then
    let (t, l) ← eng.tree path p.location
    Rendering.note (.includingTree path p.location)
    return (← inside body t { p with location := l }, g.dynamic)
  else
    Rendering.note (.includingText path p.location)
    return (.text (← eng.text path p.location), g.dynamic)

/-! ### Tags -/

/-- The value of an attribute as it is written; values of data attributes are escaped. -/
def attributeValue (eng : Engine) (key v : Value) : Rendering String := do
  let written ← Rendering.onHeap do Action.ofExcept (Json.write (← Action.serial v))
  match key with
  | .text k =>
    if Markup.isData k then return (← eng.escape (.text written)).plain else return written
  | k => Rendering.fail (.noAttribute k.typeName "startswith")

/-- An attribute, unless it is dropped. -/
def attributeOf (eng : Engine) (p : Place) (n : Node) (key value : Value) (g : Group) :
    Rendering (Option String × Group) := do
  match value with
  | .bool _ => return (some (Markup.flag key.plain), g)
  | value =>
    if !value.truth then return (Markup.emptyAttribute? key.plain, g)
    else
      let v ← evaluate eng p n value
      let isTrue ← Rendering.onHeap (Action.truth v)
      if Value.sameItem key (.text "class") && !isTrue then return (none, g.dynamic)
      else return (some (Markup.written key.plain (← attributeValue eng key v)), g.dynamic)

/-- The attributes that are not dropped. -/
def attributesOf (eng : Engine) (p : Place) (n : Node) :
    List (Value × Value) → Group → Rendering (List String × Group)
  | [], g => pure ([], g)
  | (k, v) :: as, g => do
    let (a, g) ← attributeOf eng p n k v g
    let (bs, g) ← attributesOf eng p n as g
    return (a.toList ++ bs, g)

/-- The content of a tag, if it has any. -/
def tagContent (eng : Engine) (p : Place) (n : Node) (g : Group) :
    Rendering (List Value × Group) := do
  if n.content.truth then
    let (v, g) ← content eng p n g
    return ([v], g)
  else return ([], g)

/-- The children of a tag, if it has any. -/
def tagBody (body : Body) (p : Place) (n : Node) (g : Group) : Rendering (List Value × Group) := do
  if n.children.isEmpty then return ([], g)
  else
    let (s, d) ← body n p
    return ([.text s], if d then g.dynamic else g)

/-- The markup of a tag. -/
def tagMarkup (eng : Engine) (body : Body) (p : Place) (n : Node) (g : Group) :
    Rendering (String × Group) := do
  let t ← Rendering.ofCause (Tag.ofValue n.symbol)
  let (as, g) ← attributesOf eng p n n.attributes g
  let (cs, g) ← tagContent eng p n g
  let (bs, g) ← tagBody body p n g
  let es ← Rendering.ofCause (Markup.closing eng.config.voidTags t)
  let pieces := Markup.opening t ++ Markup.attributes as ++ cs ++ bs ++ es
  return (← Rendering.ofCause (Markup.join pieces), g)

/-- A tag.  Its markup is remembered if nothing up to its end depends on the scope. -/
def tag (eng : Engine) (body : Body) (p : Place) (n : Node) (g : Group) :
    Rendering (Value × Group) := do
  let (html, g) ← tagMarkup eng body p n g
  if eng.config.compact && !g.isDynamic then eng.remember n html
  return (.text html, g)

/-! ### Groups -/

/-- A node in its role. -/
def inRole (eng : Engine) (body : Body) (limit : Nat) (p : Place) (n : Node) (g : Group) :
    Role → Rendering (Value × Group)
  | .condition => condition eng body p n g
  | .alternative => alternative eng body p n g
  | .whileLoop => whileLoop eng body limit p n g
  | .forLoop => forLoop eng body limit p n g
  | .each => Rendering.complain .eachUnsupported n.position
  | .comment => comment n g
  | .inclusion => inclusion eng body p n g
  | .text => text eng p n g
  | .inlineCode => Rendering.complain .inlineCode n.position
  | .plugin name => plugin eng name p n g
  | .call name => call eng body name p n g
  | .definition name => definition eng name n g
  | .tag => tag eng body p n g

/-- A node in a group. -/
def node (eng : Engine) (body : Body) (limit : Nat) (p : Place) (n : Node) (g : Group) :
    Rendering (Value × Group) := do
  if Role.isAlternative n.symbol then alternative eng body p n g
  else if g.pending.isSome then return (.text "", g)
  else
    match ← eng.remembered? n with
    | some html => return (html, g)
    | none => do inRole eng body limit p n g (← Rendering.ofCause (Role.ofValue n.symbol))

/-- Nodes one after the other. -/
def nodes (eng : Engine) (body : Body) (limit : Nat) (p : Place) :
    List Node → Group → Rendering (List Value × Group)
  | [], g => pure ([], g)
  | n :: ns, g => do
    let (v, g) ← node eng body limit p n g
    let (vs, g) ← nodes eng body limit p ns g
    return (v :: vs, g)

/-- A group of siblings; a condition may not await an alternative at its end. -/
def group (eng : Engine) (body : Body) (limit : Nat) (p : Place) (ns : List Node) :
    Rendering (String × Bool) := do
  let (vs, g) ← nodes eng body limit p ns Group.start
  match g.pending with
  | some n => Rendering.complain .missingElse n.position
  | none => return (← Rendering.ofCause (Markup.join vs), g.isDynamic)

/-- The children of a node, at most `depth` groups deep and `depth` times in a loop. -/
def body (eng : Engine) : (depth : Nat) → Body
  | 0 => fun _ _ => throw .exhausted
  | depth + 1 => fun n p => group eng (body eng depth) depth p n.children

end Render

namespace Engine

/-- The markup of a tree. -/
def render (eng : Engine) (depth : Nat) (tree : Node) (scope : Scope) (location : Option String) :
    Rendering String := do
  return (← Render.body eng depth tree ⟨scope, location⟩).1

end Engine
end Trellis
