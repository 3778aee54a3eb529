import Trellis.Value.Arguments

/-!
# Value — Conversion

Numbers made of other values.  A text is read, a floating-point number loses its fraction, a whole
number is rounded to floating point.
-/

namespace Trellis.Value

open Trellis.Decimal (Shape shape ofInt wholeNumber? floatingPoint?)

/-- The number of characters of a text that a message about it shows. -/
def excerptLength : Nat := 200

/-- The whole number that a text stands for in a base. -/
def readWhole (base : Nat) (s : String) : Action Value :=
  match wholeNumber? base s.toList with
  | .value n => pure (.int n)
  | .malformed =>
    let excerpt := (Text.quoted s).toList.take excerptLength
    Action.fail (.intText base (String.ofList excerpt))
  | .tooLong n => Action.fail (.digitsRead n)

/-- A value as a whole number. -/
def toInt (v : Value) : Action Value :=
  match v with
  | .text s => readWhole 10 s
  | .float x =>
    match shape x with
    | .finite d => pure (.int d.truncate)
    | .infinite _ => Action.fail .infinityToInt
    | .nan => Action.fail .nanToInt
  | .nan _ => Action.fail .nanToInt
  | v =>
    match v.asInt? with
    | some n => pure (.int n)
    | Option.none => Action.fail (.notInt v.typeName)

/-- A text as a whole number in a base. -/
def toIntIn (v base : Value) : Action Value := do
  let b ← whole base
  if b < 0 || b = 1 || 36 < b then Action.fail .intBase
  else
    match v with
    | .text s => readWhole b.toNat s
    | _ => Action.fail .baseOfNumber

/-- A value as a floating-point number. -/
def toFloat (v : Value) : Action Value :=
  match v with
  | .text s =>
    match floatingPoint? s.toList with
    | some x => Action.float x
    | Option.none => Action.fail (.floatText (Text.quoted s))
  | .float x => pure (.float x)
  | .nan m => pure (.nan m)
  | v =>
    match v.asInt? with
    | some n =>
      let x := ofInt n
      if x.isInf then Action.fail .intTooLarge else pure (.float x)
    | Option.none => Action.fail (.notFloat v.typeName)

end Trellis.Value
