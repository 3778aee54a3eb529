import Trellis.Value.Conversion
import Trellis.Json.Writer

/-!
# Value — Placeholders

Texts with placeholders for arguments.  A text is cut into pieces from the left, once: a doubled
percent sign stands for one, a percent sign before the letter of a conversion for the next
argument, and all else for itself.  What the arguments put in is never looked at for placeholders.
Arguments without a placeholder follow, each after a blank.
-/

namespace Trellis.Placeholders

/-- What is done to an argument. -/
inductive Conversion where
  | text
  | whole
  | floating
  | serialized
  deriving DecidableEq, Repr

/-- The conversion that a letter asks for. -/
def Conversion.ofLetter? : Char → Option Conversion
  | 's' | 'o' | 'O' => some .text
  | 'd' | 'i' => some .whole
  | 'f' => some .floating
  | 'j' => some .serialized
  | _ => none

/-- The text of a converted argument. -/
def Conversion.apply (v : Value) : Conversion → Action String
  | text => Action.embedded v
  | whole => do Action.embedded (← Value.toInt v)
  | floating => do Action.embedded (← Value.toFloat v)
  | serialized => do Action.ofExcept (Json.write (← Action.serial v))

/-- The pieces of a text. -/
inductive Piece where
  | plain (c : Char)
  | percent
  /-- A place for an argument, with the letter it is written with. -/
  | slot (letter : Char) (conversion : Conversion)
  deriving DecidableEq, Repr

/-- How a piece is written. -/
def Piece.source : Piece → List Char
  | plain c => [c]
  | percent => ['%', '%']
  | slot c _ => ['%', c]

/-- The pieces of a text, from the left. -/
def scan : List Char → List Piece
  | [] => []
  | '%' :: '%' :: s => .percent :: scan s
  | '%' :: c :: s =>
    match Conversion.ofLetter? c with
    | some k => .slot c k :: scan s
    | none => .plain '%' :: scan (c :: s)
  | c :: s => .plain c :: scan s

/-- The pieces filled with arguments, and the arguments that are left.  Where the arguments have
run out, a place stays as it is written. -/
def fill : List Piece → List Value → Action (List Char × List Value)
  | [], vs => pure ([], vs)
  | .plain c :: ps, vs => do
    let (out, vs) ← fill ps vs
    return (c :: out, vs)
  | .percent :: ps, vs => do
    let (out, vs) ← fill ps vs
    return ('%' :: out, vs)
  | .slot c _ :: ps, [] => do
    let (out, vs) ← fill ps []
    return ('%' :: c :: out, vs)
  | .slot _ k :: ps, v :: vs => do
    let t ← k.apply v
    let (out, vs) ← fill ps vs
    return (t.toList ++ out, vs)

/-- The forms of values inside markup. -/
def embeddedAll : List Value → Action (List String)
  | [] => pure []
  | v :: vs => do
    let t ← Action.embedded v
    return t :: (← embeddedAll vs)

/-- A text filled with arguments, and the arguments that are left; a value that is no text has no
places. -/
def format (v : Value) (args : List Value) : Action String :=
  match v with
  | .text s => do
    let (out, rest) ← fill (scan s.toList) args
    return " ".intercalate (String.ofList out :: (← embeddedAll rest))
  | v => do return " ".intercalate (← embeddedAll (v :: args))

end Trellis.Placeholders
