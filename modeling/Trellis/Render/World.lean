import Trellis.Expr.Evaluator
import Trellis.Loader
import Trellis.Plugin
import Trellis.Tracker

/-!
# Render — World

What rendering changes: the heap, what is remembered of nodes, loaders, plugin registries, trackers
and mixins, and the list of events.  Loaders, registries and trackers have numbers, so that engines
can share them; an engine's own number is that of its mixins.

A `Rendering` is a computation on a world that may fail; what it has done before stays.
-/

namespace Trellis

/-- What is remembered of a node: the markup, and the engine that made it. -/
structure Memo where
  html : Option Value
  owner : Option Nat

/-- The definition of a mixin: the node whose children are the body, and the parameters. -/
structure Mixin where
  body : Node
  params : List Value

/-- The scope of a mixin's body: as many parameters as there are arguments are bound. -/
def Mixin.bind (m : Mixin) (scope : Scope) (args : List Value) : Scope :=
  scope.extend (m.params.zip args)

/-- What a rendering has done. -/
inductive Event where
  | evaluated (engine : Nat) (scope : Scope) (position text : Value)
  | tracked (location : Option String) (path : String)
  | requested (path : String) (location : Option String) (wanted : Wanted)
  | resolving (path : String) (location : Option String) (canonical : String)
  | includingText (path : String) (location : Option String)
  | includingTree (path : String) (location : Option String)
  | defining (name : String) (params : List Value)
  | redefining (name : String)
  | discovered (name origin : String)
  | registered (name shown : String)
  | transformed (plugin source : String) (attributes : List (Value × Value))

namespace Event

/-- A location as it is shown. -/
def shownLocation (location : Option String) : String :=
  location.getD "None"

/-- The line that an event writes to the log, if it writes one. -/
def logLine? : Event → Option String
  | resolving path location canonical =>
    let place := shownLocation location
    some s!"resolving '{path}' from {place} as '{canonical}'"
  | includingText path location =>
    let place := shownLocation location
    some s!"including text '{path}' from {place}"
  | includingTree path location =>
    let place := shownLocation location
    some s!"including tree '{path}' from {place}"
  | defining name params =>
    let names := (Value.list params).shown
    some s!"defining mixin '{name}' with parameters {names}"
  | redefining name => some s!"redefining mixin '{name}'"
  | discovered name origin => some s!"loading plugin '{name}' from entry point {origin}"
  | registered name shown => some s!"registered plugin '{name}': {shown}"
  | evaluated .. | tracked .. | requested .. | transformed .. => none

end Event

/-- What rendering changes. -/
structure World where
  heap : Heap
  nextNode : Nat
  /-- What is remembered of nodes by their identity, the latest first. -/
  memos : List (Nat × Memo)
  loaders : Array Loader
  registries : Array Registry
  trackers : Array Tracker
  mixins : Array (List (String × Mixin))
  events : Array Event

namespace World

/-- Nothing yet. -/
def empty : World := ⟨Heap.empty, 0, [], #[], #[], #[], #[], #[]⟩

/-- What is remembered of a node. -/
def memo (w : World) (id : Nat) : Memo :=
  (w.memos.lookup id).getD ⟨none, none⟩

/-- The world in which something else is remembered of a node. -/
def setMemo (w : World) (id : Nat) (m : Memo) : World :=
  { w with memos := (id, m) :: w.memos }

/-- The mixins of an engine. -/
def mixinsOf (w : World) (engine : Nat) : List (String × Mixin) :=
  w.mixins.getD engine []

end World

/-- Computations on a world that may fail. -/
abbrev Rendering := ExceptT Fault (StateM World)

namespace Rendering

/-- The failure of an operation. -/
def fail {α : Type} (c : Cause) : Rendering α :=
  throw (.basic c)

/-- A complaint about a template at a position. -/
def complain {α : Type} (c : Complaint) (position : Value) : Rendering α :=
  throw (.template c position)

/-- The outcome of an operation. -/
def ofExcept {α : Type} : Except Fault α → Rendering α
  | .ok a => pure a
  | .error f => throw f

/-- The outcome of an operation on values. -/
def ofCause {α : Type} : Except Cause α → Rendering α
  | .ok a => pure a
  | .error c => fail c

/-- A computation on the heap. -/
def onHeap {α : Type} (x : Action α) : Rendering α := do
  let w ← get
  let (r, h) := x.run.run w.heap
  set { w with heap := h }
  ofExcept r

/-- Nodes built with fresh identities. -/
def build {α : Type} (b : Draft.Build α) : Rendering α := do
  let w ← get
  let (a, next) ← ofExcept (b.run w.nextNode)
  set { w with nextNode := next }
  return a

/-- One more event. -/
def note (e : Event) : Rendering Unit :=
  modify fun w => { w with events := w.events.push e }

end Rendering
end Trellis
