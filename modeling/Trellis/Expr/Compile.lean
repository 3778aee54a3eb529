import Trellis.Expr.Grammar

/-!
# Expr — Compile

Texts compiled to expressions.  A text is compiled if the grammar takes it as a whole.  Otherwise
the column of the mistake is that of the end of the part that was taken, or of the furthest
failure if no part was.
-/

namespace Trellis.Expr

/-- Why a text is not compiled. -/
inductive Mistake where
  | empty
  | invalid (column : Nat)
  /-- A literal cannot be read. -/
  | unreadable
  deriving DecidableEq, Repr

/-- The column of an offset, counted from one in its line. -/
def columnAt (s : List Char) (offset : Nat) : Nat :=
  ((s.take offset).reverse.takeWhile (· ≠ '\n')).length + 1

/-- The offset of the mistake in a text that the grammar does not take as a whole. -/
def Reply.mistakeOffset {α : Type} (r : Reply α) : Nat :=
  match r.found with
  | some (_, c) => c.offset
  | none => r.furthest

/-- The expression that a text stands for. -/
def compileChars (s : List Char) : Except Mistake Expr :=
  if s.all Text.isBlank then .error .empty
  else
    let r := parse s
    match r.found with
    | some (e, ⟨_, []⟩) => if e.hasUnreadable then .error .unreadable else .ok e
    | _ => .error (.invalid (columnAt s r.mistakeOffset))

/-- The expression that a text stands for. -/
def compile (s : String) : Except Mistake Expr :=
  compileChars s.toList

/-- The fault of a mistake in the text `s` at a position. -/
def Mistake.fault (s : String) (position : Value) : Mistake → Fault
  | empty => .template .emptyExpression position
  | invalid column => .template (.invalidExpression s column) position
  | unreadable => .unreadableLiteral

end Trellis.Expr
