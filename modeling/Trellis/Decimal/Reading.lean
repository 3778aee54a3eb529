import Trellis.Decimal.Binary
import Trellis.Text.Search

/-!
# Decimal — Reading

Numbers read from texts.  White space around a number is ignored, digits of any script count, and a
single underscore may stand between two digits.

* `wholeNumber?` reads a whole number in a base from 2 to 36, or in the base its first characters
  name.
* `floatingPoint?` reads a decimal with an optional point and exponent, or a name of a value that
  is not finite.
-/

namespace Trellis.Decimal

open Trellis.Text (isSpace strip decimalValue?)

/-- The ASCII character that a character counts as: blanks and digits of all scripts do. -/
def counterpart? (c : Char) : Option Char :=
  if c.toNat < 127 then some c
  else if isSpace c then some ' '
  else (decimalValue? c).map fun d => Char.ofNat ('0'.toNat + d)

/-- The ASCII characters that a text counts as, up to the first character that counts as none; a
question mark, which is in no number, stands in its place. -/
def counterparts : List Char → List Char
  | [] => []
  | c :: s =>
    match counterpart? c with
    | some d => d :: counterparts s
    | none => ['?']

/-- The characters that may stand around a number. -/
def isPadding (c : Char) : Bool :=
  c = ' ' || (9 ≤ c.toNat && c.toNat ≤ 13)

/-- The value of a digit in bases up to 36. -/
def digitValue? (c : Char) : Option Nat :=
  match decimalValue? c with
  | some d => some d
  | none =>
    if 'a' ≤ c && c ≤ 'z' then some (c.toNat - 'a'.toNat + 10)
    else if 'A' ≤ c && c ≤ 'Z' then some (c.toNat - 'A'.toNat + 10)
    else none

/-- The value of a digit in a base. -/
def digitIn? (base : Nat) (c : Char) : Option Nat :=
  (digitValue? c).filter (· < base)

/-- The digits at the front in which single underscores may stand between digits, and what follows;
`first` tells whether a digit has to be next. -/
def digitRun? (base : Nat) : (first : Bool) → List Char → Option (List Nat × List Char)
  | first, [] => if first then none else some ([], [])
  | first, c :: s =>
    if c = '_' then if first then none else digitRun? base true s
    else
      match digitIn? base c with
      | some d => (digitRun? base false s).map fun r => (d :: r.1, r.2)
      | none => if first then none else some ([], c :: s)

/-- The number a run of digits stands for. -/
def ofDigits (base : Nat) (ds : List Nat) : Nat :=
  ds.foldl (fun n d => n * base + d) 0

/-- A sign and what follows it. -/
def splitSign : List Char → Bool × List Char
  | '-' :: s => (true, s)
  | '+' :: s => (false, s)
  | s => (false, s)

/-- The base that the first characters name. -/
def namedBase? : List Char → Option Nat
  | '0' :: c :: _ =>
    if c = 'x' || c = 'X' then some 16
    else if c = 'o' || c = 'O' then some 8
    else if c = 'b' || c = 'B' then some 2
    else none
  | _ => none

/-- What follows the name of the base, which an underscore may separate from the digits. -/
def dropBaseName (s : List Char) : List Char :=
  match s.drop 2 with
  | '_' :: r => r
  | r => r

/-- A whole number read from a text. -/
inductive Whole where
  | value (n : Int)
  | malformed
  /-- The text starts with more digits than may be read. -/
  | tooLong (digits : Nat)
  deriving DecidableEq, Repr

/-- The greatest number of digits that are read or written in a base that is no power of two. -/
def digitLimit : Nat := 4300

/-- The bases in which numbers of any length are read. -/
def isPowerBase (base : Nat) : Bool :=
  base == 2 || base == 4 || base == 8 || base == 16 || base == 32

/-- A whole number without sign in a fixed base, with padding behind it.  The number of digits is
looked at first. -/
def magnitude? (base : Nat) (s : List Char) : Whole :=
  match digitRun? base true s with
  | none => .malformed
  | some (ds, rest) =>
    if !isPowerBase base && digitLimit < ds.length then .tooLong ds.length
    else if rest.all isPadding then .value (ofDigits base ds)
    else .malformed

/-- A whole number without sign in the base that the text names, and in base ten without leading
zeros if it names none. -/
def namedMagnitude? (s : List Char) : Whole :=
  match namedBase? s with
  | some b => magnitude? b (dropBaseName s)
  | none =>
    match magnitude? 10 s with
    | .value n => if n ≠ 0 && s.head? = some '0' then .malformed else .value n
    | r => r

/-- A whole number in a base; base zero stands for the base that the text names. -/
def wholeNumber? (base : Nat) (s : List Char) : Whole :=
  let (negative, s) := splitSign ((counterparts s).dropWhile isPadding)
  let m :=
    if base = 0 then namedMagnitude? s
    else if namedBase? s = some base then magnitude? base (dropBaseName s)
    else magnitude? base s
  match m with
  | .value n => .value (if negative then -n else n)
  | r => r

/-- The characters of a run of decimal digits with single underscores, and what follows. -/
def spanDigits : (after : Bool) → List Char → Option (List Nat × List Char)
  | _, [] => some ([], [])
  | after, '_' :: s =>
    if after && (s.head?.bind decimalValue?).isSome then spanDigits false s else none
  | _, c :: s =>
    match decimalValue? c with
    | some d => (spanDigits true s).map fun r => (d :: r.1, r.2)
    | none => some ([], c :: s)

/-- The number nearest to `digits · 10 ^ scale`. -/
def ofDecimal (negative : Bool) (digits : Nat) (scale : Int) : Float :=
  let top : Int := (Nat.toDigits 10 digits).length + scale
  if digits = 0 || top < -400 then nearest negative 0 1
  else if 400 < top then nearest negative (10 ^ 400) 1
  else nearest negative (digits * 10 ^ scale.toNat) (10 ^ (-scale).toNat)

/-- The exponent after a mantissa; the text ends after it. -/
def exponent? : List Char → Option Int
  | [] => some 0
  | c :: s =>
    if c = 'e' || c = 'E' then
      let (negative, s) := splitSign s
      match spanDigits false s with
      | some (ds, []) =>
        if ds.isEmpty then none
        else some (if negative then -(ofDigits 10 ds : Int) else ofDigits 10 ds)
      | _ => none
    else none

/-- A decimal without sign. -/
def decimal? (negative : Bool) (s : List Char) : Option Float :=
  match spanDigits false s with
  | none => none
  | some (whole, '.' :: r) =>
    match spanDigits false r with
    | none => none
    | some (places, r) =>
      if whole.isEmpty && places.isEmpty then none
      else (exponent? r).map fun e =>
        ofDecimal negative (ofDigits 10 (whole ++ places)) (e - places.length)
  | some (whole, r) =>
    if whole.isEmpty then none
    else (exponent? r).map fun e => ofDecimal negative (ofDigits 10 whole) e

/-- A floating-point number read from a text. -/
def floatingPoint? (s : List Char) : Option Float :=
  let (negative, s) := splitSign (strip isPadding (counterparts s))
  let name := String.ofList (s.map Char.toLower)
  if name = "inf" || name = "infinity" then
    some (Float.ofBits (UInt64.ofNat (infinityBits + if negative then signBit else 0)))
  else if name = "nan" then some (Float.ofBits (UInt64.ofNat (infinityBits + 2 ^ 51)))
  else decimal? negative s

end Trellis.Decimal
