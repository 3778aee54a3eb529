import Trellis.Value.Operators

/-!
# Expr — Basic

Compiled expressions.  A chain of operators of one level keeps its form: a head and the operators
with their right operands, applied from left to right.  Keys of a dictionary are written out and
are never looked up as names.
-/

namespace Trellis

/-- What is written out in an expression. -/
inductive Literal where
  | null
  | truth (b : Bool)
  | whole (n : Nat)
  /-- A number of more digits than may be read, or of digits that have no value. -/
  | unreadable
  | floating (x : Float)
  | text (s : String)

/-- The value of a literal. -/
def Literal.value : Literal → Value
  | null => .none
  | truth b => .bool b
  | whole n => .int n
  | unreadable => .none
  | floating x => .float x
  | text s => .text s

/-- The literal cannot be read. -/
def Literal.isUnreadable : Literal → Bool
  | unreadable => true
  | _ => false

mutual

/-- Expressions. -/
inductive Expr where
  | literal (l : Literal)
  | var (name : String)
  /-- An expression followed by calls, indices and members. -/
  | factor (head : Expr) (tails : List Tail)
  /-- Operators of one level. -/
  | chain (head : Expr) (rest : List (Operator × Expr))
  | neg (e : Expr)
  | not (e : Expr)
  | conj (es : List Expr)
  | disj (es : List Expr)
  | choice (test yes no : Expr)
  | list (es : List Expr)
  | dict (pairs : List (Literal × Expr))

/-- What can follow an expression. -/
inductive Tail where
  | call (args : List Expr)
  | index (e : Expr)
  | member (name : String)

end

instance : Inhabited Expr := ⟨.literal .null⟩

namespace Expr

/-- Operators of one level, if there are any. -/
def chainOf (head : Expr) : List (Operator × Expr) → Expr
  | [] => head
  | rest => chain head rest

/-- What follows an expression, if anything does. -/
def factorOf (head : Expr) : List Tail → Expr
  | [] => head
  | tails => factor head tails

/-- A conjunction, if there are several expressions. -/
def conjOf (head : Expr) : List Expr → Expr
  | [] => head
  | es => conj (head :: es)

/-- A disjunction, if there are several expressions. -/
def disjOf (head : Expr) : List Expr → Expr
  | [] => head
  | es => disj (head :: es)

mutual

/-- A literal in the expression cannot be read. -/
def hasUnreadable : Expr → Bool
  | literal l => l.isUnreadable
  | var _ => false
  | factor e ts => e.hasUnreadable || anyTailUnreadable ts
  | chain e rest => e.hasUnreadable || anyStepUnreadable rest
  | neg e => e.hasUnreadable
  | not e => e.hasUnreadable
  | conj es => anyUnreadable es
  | disj es => anyUnreadable es
  | choice a b c => a.hasUnreadable || b.hasUnreadable || c.hasUnreadable
  | list es => anyUnreadable es
  | dict ps => anyPairUnreadable ps
termination_by structural e => e

/-- A literal in one of the expressions cannot be read. -/
def anyUnreadable : List Expr → Bool
  | [] => false
  | e :: es => e.hasUnreadable || anyUnreadable es
termination_by structural es => es

/-- A literal in one of the operands cannot be read. -/
def anyStepUnreadable : List (Operator × Expr) → Bool
  | [] => false
  | s :: ss => stepUnreadable s || anyStepUnreadable ss
termination_by structural ss => ss

/-- A literal in the operand cannot be read. -/
def stepUnreadable : Operator × Expr → Bool
  | (_, e) => e.hasUnreadable
termination_by structural s => s

/-- A literal in one of the pairs cannot be read. -/
def anyPairUnreadable : List (Literal × Expr) → Bool
  | [] => false
  | p :: ps => pairUnreadable p || anyPairUnreadable ps
termination_by structural ps => ps

/-- A literal in the pair cannot be read. -/
def pairUnreadable : Literal × Expr → Bool
  | (k, e) => k.isUnreadable || e.hasUnreadable
termination_by structural p => p

/-- A literal in one of the tails cannot be read. -/
def anyTailUnreadable : List Tail → Bool
  | [] => false
  | t :: ts => tailUnreadable t || anyTailUnreadable ts
termination_by structural ts => ts

/-- A literal in the tail cannot be read. -/
def tailUnreadable : Tail → Bool
  | .call es => anyUnreadable es
  | .index e => e.hasUnreadable
  | .member _ => false
termination_by structural t => t

end

end Expr
end Trellis
