import Trellis.Expr.Compile
import Trellis.Expr.Scope

/-!
# Expr — Evaluator

Evaluation of texts.  `Expr.evaluate` compiles a text and evaluates it; an operation that fails by
its types, by a missing key or by a missing attribute becomes a complaint about the text with its
position, other failures go through as they are.

An `Evaluator` remembers what it has compiled.  What it answers does not depend on that.
-/

namespace Trellis

namespace Expr

/-- The classes of failures that become complaints about an expression. -/
def isComplained : CauseKind → Bool
  | .key | .index | .missingAttribute | .type => true
  | _ => false

/-- A complaint about a name in other words, at a position.  Words that are no text cannot be
followed by one. -/
def renamed (words : String) (misfit : Option Cause) (position : Value) : Fault :=
  match position, misfit with
  | .none, m => .template (.given .name words m) .none
  | _, some c => .basic c
  | position, none => .template (.given .name words none) position

/-- A failure in the expression `text`, which stands at a position. -/
def located (text : String) (position : Value) : Fault → Fault
  | .template (.unbound n) _ => .template (.unbound n) position
  | .template (.given .name m b) p => renamed (m ++ positionText p) b position
  | .basic c => if isComplained c.kind then .template (.failed c text) position else .basic c
  | f => f

/-- The value of a compiled text. -/
def evalIn (e : Expr) (names : Names) (text : String) (position : Value) : Action Value :=
  tryCatch (e.eval names) fun f => throw (located text position f)

/-- The compiled text. -/
def compiled (text : String) (position : Value) : Action Expr :=
  match compile text with
  | .ok e => pure e
  | .error m => throw (m.fault text position)

/-- The text of an expression, unless the value is none.  What is empty in any way counts as an
empty text. -/
def source (v position : Value) : Action String := do
  match v with
  | .text s => return s
  | v =>
    let v ← Action.key v
    if ← Action.truth v then Action.fail (.noAttribute v.typeName "strip")
    else throw (Mistake.empty.fault "" position)

/-- The value of a text. -/
def evaluate (names : Names) (position : Value) (text : String) : Action Value := do
  let e ← compiled text position
  e.evalIn names text position

end Expr

/-- How the expressions of a template get their values: from the scope, the position and what stands
in the place of the text. -/
abbrev Evaluation := Scope → (position text : Value) → Action Value

/-- The expression language with some built-in names. -/
def Expr.evaluation (builtins : Scope) : Evaluation := fun s position v => do
  Expr.evaluate (s.names builtins) position (← Expr.source v position)

/-- Built-in names, and the texts that were compiled so far. -/
structure Evaluator where
  builtins : Scope
  cache : List (String × Expr)

namespace Evaluator

/-- An evaluator with some built-in names besides the usual ones. -/
def withBuiltins (more : Scope) : Evaluator :=
  ⟨Scope.builtin.extend more, []⟩

/-- The text is remembered. -/
def remembers (e : Evaluator) (text : String) : Bool :=
  (e.cache.lookup text).isSome

/-- The compiled text, from memory if it is there, and what is remembered then. -/
def compile (e : Evaluator) (text : String) : Except Expr.Mistake Expr × Evaluator :=
  match e.cache.lookup text with
  | some x => (.ok x, e)
  | none =>
    match Expr.compile text with
    | .ok x => (.ok x, { e with cache := e.cache ++ [(text, x)] })
    | .error m => (.error m, e)

/-- The value of a text in a scope, and what is remembered then. -/
def evaluate (e : Evaluator) (s : Scope) (position : Value) (text : String) :
    Action Value × Evaluator :=
  match e.compile text with
  | (.ok x, e') => (x.evalIn (s.names e.builtins) text position, e')
  | (.error m, e') => (throw (m.fault text position), e')

end Evaluator
end Trellis
