import Trellis.Value.Membership
import Trellis.Value.Percent

/-!
# Value — Operators

The operators of expressions.  Truth values count as whole numbers; whole numbers are unbounded;
an operation on a whole number and a floating-point number is one on floating-point numbers.  A
quotient is a floating-point number, a remainder has the sign of the divisor.  Adding to a text
embeds the other operand.  Views of keys and entries are subtracted and compared as sets are.
-/

namespace Trellis

/-- The binary operators. -/
inductive Operator where
  | add
  | sub
  | mul
  | div
  | mod
  | eq
  | ne
  | strictEq
  | strictNe
  | lt
  | le
  | gt
  | ge
  | isIn
  | notIn
  deriving DecidableEq, Repr

namespace Operator

/-- All binary operators. -/
def all : List Operator :=
  [add, sub, mul, div, mod, eq, ne, strictEq, strictNe, lt, le, gt, ge, isIn, notIn]

/-- How an operator is written. -/
def symbol : Operator → String
  | add => "+"
  | sub => "-"
  | mul => "*"
  | div => "/"
  | mod => "%"
  | eq => "=="
  | ne => "!="
  | strictEq => "==="
  | strictNe => "!=="
  | lt => "<"
  | le => "<="
  | gt => ">"
  | ge => ">="
  | isIn => "in"
  | notIn => "not in"

end Operator

namespace Operation

open Trellis.Decimal (Shape shape ofInt nearest)
open Trellis.Membership (contains difference setDifference isSetLike isSetView equal included)

/-- Two operands that are numbers. -/
inductive Numbers where
  | ints (m n : Int)
  | floats (x y : Float)

/-- A whole number as a floating-point number. -/
def floatOfInt (n : Int) : Except Cause Float :=
  let x := ofInt n
  if x.isInf then .error .intTooLarge else .ok x

/-- The operands as numbers of one kind, if both are numbers. -/
def numbers? (v w : Value) : Option (Except Cause Numbers) :=
  match v.asInt?, w.asInt?, v.asFloat?, w.asFloat? with
  | some m, some n, _, _ => some (.ok (.ints m n))
  | some m, none, _, some y => some ((floatOfInt m).map (.floats · y))
  | none, some n, some x, _ => some ((floatOfInt n).map (.floats x ·))
  | none, none, some x, some y => some (.ok (.floats x y))
  | _, _, _, _ => none

/-- The operands do not fit the operator. -/
def misfit {α : Type} (op : String) (v w : Value) : Action α :=
  Action.fail (.operands op v.typeName w.typeName)

/-- An operator on numbers; other operands are left to `otherwise`. -/
def arithmetic (v w : Value) (ints : Int → Int → Action Value)
    (floats : Float → Float → Action Value) (otherwise : Action Value) : Action Value :=
  match numbers? v w with
  | some (.ok (.ints m n)) => ints m n
  | some (.ok (.floats x y)) => floats x y
  | some (.error c) => Action.fail c
  | none => otherwise

/-- Sum; lists and tuples are joined. -/
def plus (v w : Value) : Action Value :=
  arithmetic v w (fun m n => pure (.int (m + n))) (fun x y => Action.float (x + y)) do
    match ← Action.view v, ← Action.view w with
    | .list xs, .list ys => Action.newList (xs ++ ys)
    | .list _, _ => Action.fail (.concatenation "list" w.typeName)
    | .tuple xs, .tuple ys => pure (.tuple (xs ++ ys))
    | .tuple _, _ => Action.fail (.concatenation "tuple" w.typeName)
    | _, _ => misfit "+" v w

/-- Sum, or the joined forms inside markup if one operand is a text. -/
def add (v w : Value) : Action Value :=
  match v, w with
  | .text s, w => return .text (s ++ (← Action.embedded w))
  | v, .text t => return .text ((← Action.embedded v) ++ t)
  | v, w => plus v w

/-- Difference, of numbers or of sets. -/
def sub (v w : Value) : Action Value :=
  arithmetic v w (fun m n => pure (.int (m - n))) (fun x y => Action.float (x - y))
    (match v, w with
      | .set xs n, .set ys _ => pure (setDifference xs n ys)
      | v, w => if isSetView v || isSetView w then difference v w else misfit "-" v w)

/-- How often a sequence is repeated. -/
def times (w : Value) : Action Nat :=
  match w.asInt? with
  | some n => if Value.exceedsIndex n then Action.fail .countTooLarge else pure n.toNat
  | none => Action.fail (.repetition w.typeName)

/-- As many copies of `x` joined, by joining halves. -/
def copies {α : Type} (join : α → α → α) (unit x : α) (n : Nat) : α :=
  if n = 0 then unit
  else
    let half := copies join unit x (n / 2)
    if n % 2 = 0 then join half half else join (join half half) x
termination_by n

/-- A text repeated. -/
def repeatText (s : String) (n : Nat) : Action Value :=
  let length := s.length * n
  if Value.indexLimit < length then Action.fail .repeatedTooLong
  else if Value.roomLimit < length then Action.fail .noRoom
  else if length = 0 then pure (.text "")
  else pure (.text (copies (· ++ ·) "" s n))

/-- Items repeated. -/
def repeatItems (xs : List Value) (n : Nat) : Action (List Value) :=
  if xs.isEmpty then pure []
  else if Value.hasRoom (xs.length * n) then pure (copies (· ++ ·) [] xs n)
  else Action.fail .noRoom

/-- The sequence repeated; none if the value is no sequence. -/
def repeated? (v w : Value) : Action (Option Value) := do
  match ← Action.view v with
  | .text s => return some (← repeatText s (← times w))
  | .list xs => return some (← Action.newList (← repeatItems xs (← times w)))
  | .tuple xs => return some (.tuple (← repeatItems xs (← times w)))
  | _ => return none

/-- Product; a sequence times a whole number is repeated. -/
def mul (v w : Value) : Action Value :=
  arithmetic v w (fun m n => pure (.int (m * n))) (fun x y => Action.float (x * y)) do
    match ← repeated? v w with
    | some r => return r
    | none =>
      match ← repeated? w v with
      | some r => return r
      | none => misfit "*" v w

/-- The quotient of two whole numbers, rounded. -/
def quotient (m n : Int) : Except Cause Float :=
  if n = 0 then .error .divisionByZero
  else
    let x := nearest ((m < 0) != (n < 0)) m.natAbs n.natAbs
    if x.isInf then .error .quotientTooLarge else .ok x

/-- Quotient. -/
def div (v w : Value) : Action Value :=
  arithmetic v w (fun m n => do return .float (← Action.ofExcept (quotient m n)))
    (fun x y => if y == 0 then Action.fail .floatDivisionByZero else Action.float (x / y))
    (misfit "/" v w)

/-- Remainder of floating-point numbers, with the sign of the divisor. -/
def floatMod (x y : Float) : Float :=
  let r := match shape x, shape y with
    | .finite a, .finite b => a.remainder b
    | .finite _, .infinite _ => x
    | _, _ => 0.0 / 0.0
  if r == 0 then (if y < 0 then -0.0 else 0.0)
  else if (y < 0) != (r < 0) then r + y
  else r

/-- A value as the right operand of a format.  The items of a tuple, and the values of a dictionary,
have their own content. -/
def operandOf (w : Value) : Action Percent.Operand := do
  let h ← get
  let entries := match h.view w with
    | .dict es => es.map fun e => (e.1, h.deep e.2)
    | _ => []
  match w with
  | .tuple xs => return ⟨.tuple (xs.map h.deep), []⟩
  | w => return ⟨h.deep w, entries⟩

/-- Remainder; a text on the left is a format. -/
def mod (v w : Value) : Action Value :=
  match v with
  | .text s => do return .text (← Action.ofExcept (Percent.format s (← operandOf w)))
  | v =>
    arithmetic v w
      (fun m n => if n = 0 then Action.fail .intModulo else pure (.int (Int.fmod m n)))
      (fun x y => if y == 0 then Action.fail .floatModulo else Action.float (floatMod x y))
      (misfit "%" v w)

/-- The opposite number. -/
def neg (v : Value) : Action Value :=
  match v with
  | .float x => Action.float (-x)
  | .nan _ => Action.float (0.0 / 0.0)
  | v =>
    match v.asInt? with
    | some n => pure (.int (-n))
    | none => Action.fail (.operand "-" v.typeName)

/-- Equality by content. -/
def looseEq (v w : Value) : Action Bool := do
  if isSetLike v && isSetLike w then equal v w
  else return Value.looseEq (← Action.deep v) (← Action.deep w)

/-- Equality of values of one type. -/
def strictEq (v w : Value) : Action Bool := do
  if isSetLike v && isSetLike w then
    if v.typeName = w.typeName then equal v w else return false
  else return Value.strictEq (← Action.deep v) (← Action.deep w)

/-- A comparison. -/
def compare (c : Comparison) (v w : Value) : Action Bool := do
  if isSetLike v && isSetLike w then included c v w
  else Action.ofExcept (Value.holds c (← Action.deep v) (← Action.deep w))

/-- The result of a relation. -/
def related (r : Value → Value → Action Bool) (v w : Value) : Action Value := do
  return .bool (← r v w)

/-- The opposite of the result of a relation. -/
def unrelated (r : Value → Value → Action Bool) (v w : Value) : Action Value := do
  return .bool (!(← r v w))

/-- The result of a binary operator. -/
def apply : Operator → Value → Value → Action Value
  | .add => add
  | .sub => sub
  | .mul => mul
  | .div => div
  | .mod => mod
  | .eq => related looseEq
  | .ne => unrelated looseEq
  | .strictEq => related strictEq
  | .strictNe => unrelated strictEq
  | .lt => related (compare .lt)
  | .le => related (compare .le)
  | .gt => related (compare .gt)
  | .ge => related (compare .ge)
  | .isIn => related contains
  | .notIn => unrelated contains

end Operation
end Trellis
