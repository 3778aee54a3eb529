import Trellis.Expr.Token

/-!
# Expr — Grammar

The rules of the expression language, from the loosest level to the tightest:

    choice  or  and  not  comparison  sum  product  minus  call, index, member  atom

Each rule is a matcher over the rules that it refers to.  The rules that refer back to a looser
level are collected in `Rules`; `rules` ties the knot up to a depth of nesting.  Every reference
back comes after at least one character, so the length of a text bounds the depth it needs.
-/

namespace Trellis.Expr

/-- The rules that other rules refer back to. -/
structure Rules where
  expr : Matcher Expr
  choice : Matcher Expr
  negation : Matcher Expr
  unary : Matcher Expr

namespace Rule

open Matcher
open Token (space exactly unquote reservedWord identifier numberLiteral comparisons sums products)

/-- White space. -/
def gap : Matcher Unit := do
  let _ ← token space
  pure ()

/-- A symbol. -/
def symbol (t : String) : Matcher Unit := do
  let _ ← token (exactly t.toList)
  pure ()

/-- One of some operators, the first whose pattern fits. -/
def operator (signs : List (Operator × Pattern)) : Matcher Operator :=
  named (firstOf (signs.map fun c => do
    let _ ← token c.2
    return c.1))

/-! ### Literals and names -/

/-- A reserved word. -/
def reservedName : Matcher Unit := named do
  let _ ← token reservedWord
  pure ()

/-- An identifier. -/
def name : Matcher String := named do
  absent reservedName
  return String.ofList (← token identifier)

/-- A number. -/
def number : Matcher Literal := named do
  return numberLiteral (← token Token.number)

/-- A text in quotes. -/
def text : Matcher Literal := named do
  return .text (unquote (← token Token.quoted))

/-- A truth value. -/
def truth : Matcher Literal := named do
  let w ← token Token.truthWord
  return .truth (w = "true".toList || w = "True".toList)

/-- The empty value. -/
def null : Matcher Literal := named do
  let _ ← token Token.nullWord
  return .null

/-- A literal. -/
def literal : Matcher Literal := named (firstOf [number, text, truth, null])

/-- A variable. -/
def var : Matcher Expr := named do
  return .var (← name)

/-! ### Collections and atoms -/

/-- One more item after a comma. -/
def nextItem {α : Type} (item : Matcher α) : Matcher α := named do
  symbol ","
  item

/-- Items between commas, at least one. -/
def series {α : Type} (item : Matcher α) : Matcher (List α) := named do
  let a ← item
  let as ← many (nextItem item)
  return a :: as

/-- An expression in parentheses. -/
def inner (expr : Matcher Expr) : Matcher Expr := named do
  symbol "("
  let e ← expr
  symbol ")"
  return e

/-- What an optional part found, or nothing. -/
def orNothing {α : Type} : Option (List α) → List α
  | some as => as
  | none => []

/-- A list. -/
def list (expr : Matcher Expr) : Matcher Expr := named do
  symbol "["
  gap
  let es ← optional (series expr)
  gap
  symbol "]"
  return .list (orNothing es)

/-- A key of a dictionary. -/
def key : Matcher Literal :=
  named (firstOf [text, number, do return .text (← name)])

/-- A pair of a dictionary. -/
def pair (expr : Matcher Expr) : Matcher (Literal × Expr) := named do
  gap
  let k ← key
  gap
  symbol ":"
  return (k, ← expr)

/-- A dictionary. -/
def dict (expr : Matcher Expr) : Matcher Expr := named do
  symbol "\x7b"
  gap
  let ps ← optional (series (pair expr))
  gap
  symbol "\x7d"
  return .dict (orNothing ps)

/-- An atom. -/
def atom (expr : Matcher Expr) : Matcher Expr :=
  named (firstOf [do return .literal (← literal), var, inner expr, list expr, dict expr])

/-! ### Calls, indices and members -/

/-- A call. -/
def call (expr : Matcher Expr) : Matcher Tail := named do
  symbol "("
  gap
  let es ← optional (series expr)
  gap
  symbol ")"
  return .call (orNothing es)

/-- An index. -/
def index (expr : Matcher Expr) : Matcher Tail := named do
  symbol "["
  let e ← expr
  symbol "]"
  return .index e

/-- A member. -/
def member : Matcher Tail := named do
  symbol "."
  gap
  return .member (← name)

/-- A call, an index or a member. -/
def trailer (expr : Matcher Expr) : Matcher Tail :=
  named (firstOf [call expr, index expr, member])

/-- One more call, index or member. -/
def nextTrailer (expr : Matcher Expr) : Matcher Tail := named do
  gap
  trailer expr

/-- An atom and what follows it. -/
def factor (expr : Matcher Expr) : Matcher Expr := named do
  let a ← atom expr
  let ts ← many (nextTrailer expr)
  return factorOf a ts

/-! ### Operators -/

/-- A minus sign and its operand. -/
def minus (unary : Matcher Expr) : Matcher Expr := named do
  symbol "-"
  gap
  return .neg (← unary)

/-- A minus sign and its operand, or a factor. -/
def unary (expr unary : Matcher Expr) : Matcher Expr :=
  named (firstOf [minus unary, factor expr])

/-- One more operator and its right operand. -/
def step (operand : Matcher Expr) (op : Matcher Operator) : Matcher (Operator × Expr) := named do
  gap
  let o ← op
  gap
  return (o, ← operand)

/-- Operands of one level with operators between them. -/
def chain (operand : Matcher Expr) (op : Matcher Operator) : Matcher Expr := named do
  let e ← operand
  let rest ← many (step operand op)
  return chainOf e rest

/-- Products, quotients and remainders. -/
def product (unary : Matcher Expr) : Matcher Expr :=
  chain unary (operator products)

/-- Sums and differences. -/
def sum (unary : Matcher Expr) : Matcher Expr :=
  chain (product unary) (operator sums)

/-- Comparisons. -/
def comparison (unary : Matcher Expr) : Matcher Expr :=
  chain (sum unary) (operator comparisons)

/-- An operator that can be written as a symbol or as a word. -/
def symbolOrWord (p : Pattern) : Matcher Unit := named do
  let _ ← token p
  pure ()

/-- A denial and its operand. -/
def denial (negation : Matcher Expr) : Matcher Expr := named do
  symbolOrWord Token.denial
  gap
  return .not (← negation)

/-- A denial and its operand, or a comparison. -/
def negation (unary negation : Matcher Expr) : Matcher Expr :=
  named (firstOf [denial negation, comparison unary])

/-- One more operand of a conjunction or disjunction. -/
def nextOperand (connective : Matcher Unit) (operand : Matcher Expr) : Matcher Expr := named do
  gap
  connective
  gap
  operand

/-- Conjunctions. -/
def conjunction (negation : Matcher Expr) : Matcher Expr := named do
  let e ← negation
  return conjOf e (← many (nextOperand (symbolOrWord Token.conjunctive) negation))

/-- Disjunctions. -/
def disjunction (negation : Matcher Expr) : Matcher Expr := named do
  let e ← conjunction negation
  return disjOf e
    (← many (nextOperand (symbolOrWord Token.disjunctive) (conjunction negation)))

/-- The two branches of a choice. -/
def branches (choice : Matcher Expr) : Matcher (Expr × Expr) := named do
  gap
  symbol "?"
  gap
  let yes ← choice
  gap
  symbol ":"
  gap
  return (yes, ← choice)

/-- A choice, or a disjunction alone. -/
def choice (negation choice : Matcher Expr) : Matcher Expr := named do
  let test ← disjunction negation
  match ← optional (branches choice) with
  | none => return test
  | some (yes, no) => return .choice test yes no

/-- An expression with white space around it. -/
def expr (choice : Matcher Expr) : Matcher Expr := named do
  gap
  let e ← choice
  gap
  return e

end Rule

/-- The rules of a level over those of the next. -/
def Rules.next (r : Rules) : Rules :=
  let unary := Rule.unary r.expr r.unary
  let negation := Rule.negation unary r.negation
  let choice := Rule.choice negation r.choice
  ⟨Rule.expr choice, choice, negation, unary⟩

/-- The rules for expressions nested less than `depth` deep. -/
def rules : (depth : Nat) → Rules
  | 0 => ⟨.fail, .fail, .fail, .fail⟩
  | depth + 1 => (rules depth).next

/-- The front of a text that is an expression. -/
def parse (s : List Char) : Reply Expr :=
  (rules (s.length + 1)).expr (Cursor.ofText s)

end Trellis.Expr
