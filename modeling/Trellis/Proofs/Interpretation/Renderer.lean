import Trellis.Proofs.Sharing.Runs

/-!
# Proofs — Interpretation — Renderer

Rendering with an open outside.  An `Interpretation` answers, in a monad of its own, what a
rendering asks for: the value of an expression, a mixin, a source, what is remembered of a node.
`Interpretation.body` walks through the children of a node as `Render.body` does and leaves
everything else to the interpretation.

* `Engine.interpretation` answers as the engine does, and gives the rendering of the engine
  (`Engine.interpretation_body`).
* `Interpretation.enter` is told of every node that is executed, that is, neither skipped nor taken
  from a memo.  An engine makes nothing of it.

What holds of a rendering because of the order in which it asks is told of all interpretations at
once, in `Trellis.Proofs.Interpretation.Coupling`.
-/

namespace Trellis

/-- Answers to what a rendering with an engine asks for. -/
structure Interpretation (eng : Engine) (m : Type → Type) where
  fail {α : Type} : Fault → m α
  onHeap {α : Type} : Action α → m α
  /-- A node is executed in its role. -/
  enter : Node → Place → m Unit
  evaluate : Scope → (position text : Value) → m Value
  /-- The mixin of a name, asked for at a position. -/
  mixin : String → (position : Value) → m Mixin
  define : String → Mixin → m Unit
  plugin : String → (position : Value) → m Plugin
  /-- The markup that a plugin of a name makes. -/
  transform : String → Plugin → String → List (Value × Value) → m Value
  text : String → Option String → m String
  tree : String → Option String → m (Node × Option String)
  track : Option String → String → m Unit
  /-- A text or a tree is included. -/
  including : Wanted → String → Option String → m Unit
  remembered? : Node → m (Option Value)
  remember : Node → String → m Unit

namespace Interpretation

variable {eng : Engine} {m : Type → Type} (I : Interpretation eng m)

/-- The same answers in another monad. -/
def map {m' : Type → Type} (f : {α : Type} → m α → m' α) : Interpretation eng m' where
  fail e := f (I.fail e)
  onHeap a := f (I.onHeap a)
  enter n p := f (I.enter n p)
  evaluate s position text := f (I.evaluate s position text)
  mixin name position := f (I.mixin name position)
  define name d := f (I.define name d)
  plugin name position := f (I.plugin name position)
  transform name q source attributes := f (I.transform name q source attributes)
  text path location := f (I.text path location)
  tree path location := f (I.tree path location)
  track location path := f (I.track location path)
  including wanted path location := f (I.including wanted path location)
  remembered? n := f (I.remembered? n)
  remember n html := f (I.remember n html)

variable [Monad m]

/-- The outcome of an operation on values. -/
def ofCause {α : Type} : Except Cause α → m α
  | .ok a => pure a
  | .error c => I.fail (.basic c)

/-- A complaint about a template at a position. -/
def complain {α : Type} (c : Complaint) (position : Value) : m α :=
  I.fail (.template c position)

variable (inner : Node → Place → m (String × Bool)) (limit : Nat) (p : Place) (n : Node) (g : Group)

/-- The truth of an expression of a node. -/
def test (text : Value) : m Bool := do
  let v ← I.evaluate p.scope n.position text
  I.onHeap (Action.truth v)

/-- The children of a node as a piece of markup. -/
def inside : m Value := do
  return .text (← inner n p).1

/-! ### Content -/

/-- The content of a text or tag. -/
def content : m (Value × Group) := do
  if n.unescaped then return (← I.ofCause (eng.config.escape n.content), g)
  else
    match Header.expression? (← I.ofCause (Markup.searchable n.content)) with
    | none => return (n.content, g)
    | some e => do
      let v ← I.evaluate p.scope n.position (.text (Markup.expression e))
      let t ← I.onHeap (Action.embedded v)
      return (← I.ofCause (eng.config.escape (.text t)), g.dynamic)

/-- A text. -/
def plainText : m (Value × Group) := do
  let (v, g) ← I.content p n g
  return (← I.ofCause (Markup.appendTo " " v), g)

/-- A comment. -/
def comment : m (Value × Group) := do
  return (← I.ofCause (Markup.comment n.content), g)

/-! ### Control -/

/-- A condition. -/
def condition : m (Value × Group) := do
  if ← I.test p n n.content then return (← inside inner p n, g.dynamic)
  else return (.text "", g.await n)

/-- The condition of an alternative holds, or it has none. -/
def alternativeHolds : m Bool := do
  match Header.condition? (← I.ofCause (Markup.searchable n.content)) with
  | none => return true
  | some c => I.test p n (.text (String.ofList c))

/-- An alternative, which is executed only while a condition awaits one. -/
def alternative : m (Value × Group) := do
  if g.pending.isNone then return (.text "", g)
  else
    I.enter n p
    if ← I.alternativeHolds p n then return (← inside inner p n, g.settle)
    else return (.text "", g.dynamic)

/-- The children over and over while a condition holds. -/
def whileHolds : (limit : Nat) → (written : String) → m String
  | 0, _ => I.fail .exhausted
  | limit + 1, written => do
    if ← I.test p n n.content then
      let (s, _) ← inner n p
      whileHolds limit (written ++ s)
    else return written

/-- A loop under a condition. -/
def whileLoop : m (Value × Group) := do
  return (.text (← I.whileHolds inner p n limit ""), g.dynamic)

/-- The children once for each pair of the walk. -/
def forEach (names : List String) : (limit : Nat) → Walk → (written : String) → m String
  | 0, _, _ => I.fail .exhausted
  | limit + 1, w, written => do
    match ← I.onHeap w.next with
    | none => return written
    | some ((key, item), w) => do
      let (s, _) ← inner n { p with scope := p.scope.extend (Render.bindings names key item) }
      forEach names limit w (written ++ s)

/-- The names of a loop and its collection. -/
def loopHeader : m (List String × String) := do
  let missing := I.complain (.noLoopVariable n.content.plain) n.position
  match Header.loop? (← I.ofCause (Markup.searchable n.content)) with
  | none => missing
  | some (targets, e) =>
    let names := Header.names targets
    if names.head?.all (·.isEmpty) then missing else return (names, String.ofList e)

/-- A loop over a collection. -/
def forLoop : m (Value × Group) := do
  let (names, e) ← I.loopHeader n
  let collection ← I.evaluate p.scope n.position (.text e)
  let walk ← I.onHeap (Walk.start collection)
  return (.text (← I.forEach inner p n names limit walk ""), g.dynamic)

/-! ### Mixins, plugins and includes -/

/-- The definition of a mixin. -/
def definition (name : String) : m (Value × Group) := do
  I.define name ⟨n, n.attributes.map (·.1)⟩
  return (.text "", g.dynamic)

/-- The values of expressions of a node, in order. -/
def evaluateAll : List Value → m (List Value)
  | [] => pure []
  | e :: es => do
    let v ← I.evaluate p.scope n.position e
    return v :: (← evaluateAll es)

/-- The call of a mixin. -/
def call (name : String) : m (Value × Group) := do
  let d ← I.mixin name n.position
  let args ← I.evaluateAll p n (n.attributes.map (·.1))
  return (← inside inner { p with scope := d.bind p.scope args } d.body, g.dynamic)

/-- The markup that a plugin makes of a source. -/
def runPlugin (name : String) : m (Value × Group) := do
  let q ← I.plugin name n.position
  let path ← I.ofCause (Markup.stripped n.content)
  let source ← I.text path p.location
  return (← I.transform name q source n.attributes, g.dynamic)

/-- An include. -/
def inclusion : m (Value × Group) := do
  let path ← I.ofCause (Markup.stripped n.content)
  I.track p.location path
  if ← I.ofCause (Render.isTreePath eng path) then
    let (t, l) ← I.tree path p.location
    I.including .tree path p.location
    return (← inside inner { p with location := l } t, g.dynamic)
  else
    I.including .text path p.location
    return (.text (← I.text path p.location), g.dynamic)

/-! ### Tags -/

/-- The value of an attribute as it is written. -/
def attributeValue (key v : Value) : m String := do
  let written ← I.onHeap do Action.ofExcept (Json.write (← Action.serial v))
  match key with
  | .text k =>
    if Markup.isData k then return (← I.ofCause (eng.config.escape (.text written))).plain
    else return written
  | k => I.fail (.basic (.noAttribute k.typeName "startswith"))

/-- An attribute, unless it is dropped. -/
def attributeOf (key value : Value) : m (Option String × Group) := do
  match value with
  | .bool _ => return (some (Markup.flag key.plain), g)
  | value =>
    if !value.truth then return (Markup.emptyAttribute? key.plain, g)
    else
      let v ← I.evaluate p.scope n.position value
      let isTrue ← I.onHeap (Action.truth v)
      if Value.sameItem key (.text "class") && !isTrue then return (none, g.dynamic)
      else return (some (Markup.written key.plain (← I.attributeValue key v)), g.dynamic)

/-- The attributes that are not dropped. -/
def attributesOf : List (Value × Value) → Group → m (List String × Group)
  | [], g => pure ([], g)
  | (k, v) :: as, g => do
    let (a, g) ← I.attributeOf p n g k v
    let (bs, g) ← attributesOf as g
    return (a.toList ++ bs, g)

/-- The content of a tag, if it has any. -/
def tagContent : m (List Value × Group) := do
  if n.content.truth then
    let (v, g) ← I.content p n g
    return ([v], g)
  else return ([], g)

/-- The children of a tag, if it has any. -/
def tagBody : m (List Value × Group) := do
  if n.children.isEmpty then return ([], g)
  else
    let (s, d) ← inner n p
    return ([.text s], if d then g.dynamic else g)

/-- The markup of a tag. -/
def tagMarkup : m (String × Group) := do
  let t ← I.ofCause (Tag.ofValue n.symbol)
  let (as, g) ← I.attributesOf p n n.attributes g
  let (cs, g) ← I.tagContent p n g
  let (bs, g) ← tagBody inner p n g
  let es ← I.ofCause (Markup.closing eng.config.voidTags t)
  let pieces := Markup.opening t ++ Markup.attributes as ++ cs ++ bs ++ es
  return (← I.ofCause (Markup.join pieces), g)

/-- A tag. -/
def tag : m (Value × Group) := do
  let (html, g) ← I.tagMarkup inner p n g
  if eng.config.compact && !g.isDynamic then I.remember n html
  return (.text html, g)

/-! ### Groups -/

/-- A node in its role. -/
def inRole : Role → m (Value × Group)
  | .condition => I.condition inner p n g
  | .alternative => I.alternative inner p n g
  | .whileLoop => I.whileLoop inner limit p n g
  | .forLoop => I.forLoop inner limit p n g
  | .each => I.complain .eachUnsupported n.position
  | .comment => I.comment n g
  | .inclusion => I.inclusion inner p n g
  | .text => I.plainText p n g
  | .inlineCode => I.complain .inlineCode n.position
  | .plugin name => I.runPlugin p n g name
  | .call name => I.call inner p n g name
  | .definition name => I.definition n g name
  | .tag => I.tag inner p n g

/-- A node in a group. -/
def node : m (Value × Group) := do
  if Role.isAlternative n.symbol then I.alternative inner p n g
  else if g.pending.isSome then return (.text "", g)
  else
    match ← I.remembered? n with
    | some html => return (html, g)
    | none => do
      let r ← I.ofCause (Role.ofValue n.symbol)
      I.enter n p
      I.inRole inner limit p n g r

/-- Nodes one after the other. -/
def nodes : List Node → Group → m (List Value × Group)
  | [], g => pure ([], g)
  | n :: ns, g => do
    let (v, g) ← I.node inner limit p n g
    let (vs, g) ← nodes ns g
    return (v :: vs, g)

/-- A group of siblings. -/
def group (ns : List Node) : m (String × Bool) := do
  let (vs, g) ← I.nodes inner limit p ns Group.start
  match g.pending with
  | some n => I.complain .missingElse n.position
  | none => return (← I.ofCause (Markup.join vs), g.isDynamic)

/-- The children of a node, at most `depth` groups deep and `depth` times in a loop. -/
def body : (depth : Nat) → Node → Place → m (String × Bool)
  | 0 => fun _ _ => I.fail .exhausted
  | depth + 1 => fun n p => I.group (body depth) depth p n.children

end Interpretation

namespace Engine

/-- The mixin of a name, or a complaint about the name. -/
def mixin (eng : Engine) (name : String) (position : Value) : Rendering Mixin := do
  match ← eng.mixin? name with
  | none => Rendering.complain (.unknownMixin name) position
  | some m => pure m

/-- The markup that a plugin of a name makes, which is noted. -/
def transform (name : String) (q : Plugin) (source : String) (attributes : List (Value × Value)) :
    Rendering Value := do
  Rendering.note (.transformed name source attributes)
  Rendering.ofExcept (q.call source attributes)

/-- An include is noted. -/
def including (wanted : Wanted) (path : String) (location : Option String) : Rendering Unit :=
  match wanted with
  | .tree => Rendering.note (.includingTree path location)
  | .text => Rendering.note (.includingText path location)

/-- What the engine itself answers. -/
def interpretation (eng : Engine) : Interpretation eng Rendering where
  fail f := throw f
  onHeap := Rendering.onHeap
  enter _ _ := pure ()
  evaluate := eng.evaluate
  mixin := eng.mixin
  define := eng.define
  plugin := eng.plugin
  transform := transform
  text := eng.text
  tree := eng.tree
  track := eng.track
  including := including
  remembered? := eng.remembered?
  remember := eng.remember

end Engine

/-! ### The rendering of an engine -/

namespace Engine

variable (eng : Engine) (inner : Body) (limit : Nat) (p : Place) (n : Node) (g : Group)

/-- The rounds of a loop under a condition are those of the interpretation. -/
theorem interpretation_whileHolds (written : String) :
    eng.interpretation.whileHolds inner p n limit written =
      Render.whileHolds eng inner p n limit written := by
  induction limit generalizing written with
  | zero => rfl
  | succ limit ih =>
    unfold Interpretation.whileHolds Render.whileHolds
    simp only [ih]
    rfl

/-- So are the rounds of a loop over a collection. -/
theorem interpretation_forEach (names : List String) (w : Walk) (written : String) :
    eng.interpretation.forEach inner p n names limit w written =
      Render.forEach inner p n names limit w written := by
  induction limit generalizing w written with
  | zero => rfl
  | succ limit ih =>
    unfold Interpretation.forEach Render.forEach
    simp only [ih]
    rfl

/-- So are evaluations in a row. -/
theorem interpretation_evaluateAll (es : List Value) :
    eng.interpretation.evaluateAll p n es = Render.evaluateAll eng p n es := by
  induction es with
  | nil => rfl
  | cons e es ih =>
    unfold Interpretation.evaluateAll Render.evaluateAll
    rw [ih]
    rfl

/-- The engine looks for the mixin, and complains or goes on. -/
theorem interpretation_call (name : String) :
    eng.interpretation.call inner p n g name = Render.call eng inner name p n g := by
  unfold Interpretation.call Render.call
  simp only [interpretation_evaluateAll]
  show eng.mixin name n.position >>= _ = _
  unfold Engine.mixin
  rw [bind_assoc]
  refine bind_congr fun d => ?_
  cases d <;> rfl

/-- So are the attributes of a tag. -/
theorem interpretation_attributesOf (as : List (Value × Value)) :
    eng.interpretation.attributesOf p n as g = Render.attributesOf eng p n as g := by
  induction as generalizing g with
  | nil => rfl
  | cons a as ih =>
    unfold Interpretation.attributesOf Render.attributesOf
    simp only [ih]
    rfl

/-- So is a tag, with its memo. -/
theorem interpretation_tag :
    eng.interpretation.tag inner p n g = Render.tag eng inner p n g := by
  unfold Interpretation.tag Interpretation.tagMarkup
  simp only [interpretation_attributesOf]
  rfl

/-- So is a node in each role. -/
theorem interpretation_inRole (r : Role) :
    eng.interpretation.inRole inner limit p n g r = Render.inRole eng inner limit p n g r := by
  cases r with
  | whileLoop =>
    unfold Interpretation.inRole Interpretation.whileLoop
    rw [interpretation_whileHolds]
    rfl
  | forLoop =>
    unfold Interpretation.inRole Interpretation.forLoop
    simp only [interpretation_forEach]
    rfl
  | call name => exact interpretation_call eng inner p n g name
  | tag => exact interpretation_tag eng inner p n g
  | _ => rfl

theorem interpretation_node :
    eng.interpretation.node inner limit p n g = Render.node eng inner limit p n g := by
  unfold Interpretation.node Render.node
  simp only [interpretation_inRole]
  rfl

/-- So are siblings. -/
theorem interpretation_nodes (ns : List Node) :
    eng.interpretation.nodes inner limit p ns g = Render.nodes eng inner limit p ns g := by
  induction ns generalizing g with
  | nil => rfl
  | cons n ns ih =>
    unfold Interpretation.nodes Render.nodes
    simp only [ih, interpretation_node]

/-- **The engine's own answers make the rendering of the engine.** -/
theorem interpretation_body (depth : Nat) :
    eng.interpretation.body depth = Render.body eng depth := by
  induction depth with
  | zero => rfl
  | succ depth ih =>
    funext n p
    unfold Interpretation.body Interpretation.group
    rw [ih, interpretation_nodes]
    rfl

end Engine
end Trellis
