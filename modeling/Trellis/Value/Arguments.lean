import Trellis.Value.Access

/-!
# Value — Arguments

What functions and methods check of their arguments: their number, and that one is a whole number,
an index into a sequence or a text.
-/

namespace Trellis.Value

/-- The failure of a function that was given `args`. -/
def wrongArity {α : Type} (function : String) (a : Arity) (args : List Value) : Action α :=
  Action.fail (.arity function a args.length)

/-- No argument. -/
def takeNone (function : String) (args : List Value) : Action Unit :=
  if args.isEmpty then pure () else wrongArity function .takesNone args

/-- The only argument. -/
def takeOne (function : String) (args : List Value) : Action Value :=
  match args with
  | [v] => pure v
  | vs => wrongArity function .takesOne vs

/-- At least `low` and at most `high` arguments. -/
def expectBetween (function : String) (low high : Nat) (args : List Value) : Action Unit :=
  if args.length < low then wrongArity function (.expectedLeast low) args
  else if high < args.length then wrongArity function (.expectedMost high) args
  else pure ()

/-- At least `low` and at most `high` arguments. -/
def takeBetween (function : String) (low high : Nat) (args : List Value) : Action Unit :=
  if args.length < low then wrongArity function (.takesLeast low) args
  else if high < args.length then wrongArity function (.takesMost high) args
  else pure ()

/-- A whole number. -/
def whole (v : Value) : Action Int :=
  match v.asInt? with
  | some n => pure n
  | Option.none => Action.fail (.notIndex v.typeName)

/-- A whole number that can be a size. -/
def size (v : Value) : Action Int := do
  let n ← whole v
  if exceedsIndex n then Action.fail .sizeTooLarge else return n

/-- How many times something is done: below zero, as often as `most`. -/
def timesUpTo (most : Nat) (n : Int) : Nat :=
  if n < 0 then most else n.toNat

/-- A bound of a slice; below zero it counts from the end. -/
def bound (n : Int) (length : Nat) : Nat :=
  if n < 0 then (n + length).toNat else n.toNat

/-- The bounds of a slice, the second of which is at most the length. -/
structure Slice where
  start : Nat
  stop : Nat

/-- The bound that an argument gives, if there is one and it is not the empty value. -/
def boundOr (default : Nat) (length : Nat) : Option Value → Action Nat
  | some .none => pure default
  | some v =>
    match v.asInt? with
    | some n => pure (bound n length)
    | Option.none => Action.fail .sliceIndex
  | Option.none => pure default

/-- The slice that optional arguments name in a text. -/
def sliceOf (length : Nat) (start stop : Option Value) : Action Slice := do
  let a ← boundOr 0 length start
  let b ← boundOr length length stop
  return ⟨a, min b length⟩

/-- The bound that an argument gives, if there is one. -/
def plainBoundOr (default : Nat) (length : Nat) : Option Value → Action Nat
  | some v =>
    match v.asInt? with
    | some n => pure (bound n length)
    | Option.none => Action.fail .sliceBound
  | Option.none => pure default

/-- The name of a value's type in messages that call the empty value by its name. -/
def argumentName : Value → String
  | none => "None"
  | v => typeName v

end Trellis.Value
