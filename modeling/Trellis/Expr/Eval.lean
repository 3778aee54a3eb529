import Trellis.Expr.Basic
import Trellis.Value.Call

/-!
# Expr — Eval

The value of an expression, given the values of names.  Operands are evaluated from left to right;
a conjunction ends at its first false operand, a disjunction at its first true one, and of a choice
one branch alone is evaluated.
-/

namespace Trellis.Expr

/-- The values of names. -/
abbrev Names := String → Option Value

/-- The value of a name. -/
def valueOf (names : Names) (n : String) : Action Value :=
  match names n with
  | some v => pure v
  | none => throw (.template (.unbound n) .none)

/-- The value of an expression, which comes from a name if the expression is one. -/
def traced (e : Expr) (v : Value) : Traced :=
  match e with
  | var n => ⟨v, some (.name n)⟩
  | _ => .fresh v

mutual

/-- The value of an expression. -/
def eval (names : Names) : Expr → Action Value
  | literal l => pure l.value
  | var n => valueOf names n
  | factor e ts => do applyTails names (traced e (← eval names e)) ts
  | chain e rest => do applySteps names (← eval names e) rest
  | neg e => do Operation.neg (← eval names e)
  | not e => do return .bool (!(← Action.truth (← eval names e)))
  | conj es => untilFalse names .none es
  | disj es => untilTrue names .none es
  | choice test yes no => do
    if ← Action.truth (← eval names test) then eval names yes else eval names no
  | list es => do Action.newList (← evalAll names es)
  | dict ps => do Action.newDict (Value.DictMethod.merge [] (← evalPairs names ps))
termination_by structural e => e

/-- The values of expressions, in order. -/
def evalAll (names : Names) : List Expr → Action (List Value)
  | [] => pure []
  | e :: es => do
    let v ← eval names e
    return v :: (← evalAll names es)
termination_by structural es => es

/-- The entries of a dictionary, in order. -/
def evalPairs (names : Names) : List (Literal × Expr) → Action (List (Value × Value))
  | [] => pure []
  | p :: ps => do
    let q ← evalPair names p
    return q :: (← evalPairs names ps)
termination_by structural ps => ps

/-- An entry of a dictionary. -/
def evalPair (names : Names) : Literal × Expr → Action (Value × Value)
  | (k, e) => do return (k.value, ← eval names e)
termination_by structural p => p

/-- The value of the first false expression, of the last if there is none, or `v` if there are no
expressions. -/
def untilFalse (names : Names) (v : Value) : List Expr → Action Value
  | [] => pure v
  | e :: es => do
    let w ← eval names e
    if ← Action.truth w then untilFalse names w es else return w
termination_by structural es => es

/-- The value of the first true expression, of the last if there is none, or `v` if there are no
expressions. -/
def untilTrue (names : Names) (v : Value) : List Expr → Action Value
  | [] => pure v
  | e :: es => do
    let w ← eval names e
    if ← Action.truth w then return w else untilTrue names w es
termination_by structural es => es

/-- The value of operators with their right operands, applied to `v` from left to right. -/
def applySteps (names : Names) (v : Value) : List (Operator × Expr) → Action Value
  | [] => pure v
  | s :: ss => do applySteps names (← applyStep names v s) ss
termination_by structural ss => ss

/-- The value of an operator with its right operand, applied to `v`. -/
def applyStep (names : Names) (v : Value) : Operator × Expr → Action Value
  | (o, e) => do Operation.apply o v (← eval names e)
termination_by structural s => s

/-- The value of calls, indices and members, applied to a value from left to right. -/
def applyTails (names : Names) (t : Traced) : List Tail → Action Value
  | [] => pure t.value
  | u :: us => do applyTails names (← applyTail names t u) us
termination_by structural us => us

/-- The value of a call, an index or a member, applied to a value. -/
def applyTail (names : Names) (t : Traced) : Tail → Action Traced
  | .call es => do return .fresh (← Value.call t.value (← evalAll names es))
  | .index e => do t.index (← eval names e)
  | .member n => t.member n
termination_by structural u => u

end

end Trellis.Expr
