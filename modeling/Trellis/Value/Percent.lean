import Trellis.Value.Fault

/-!
# Value — Percent

Formatting by the `%` operator.  A text is scanned for specifications; each takes the next
argument, or the entry it names, and writes it with the flags, the width and the precision it
gives.  The arguments are the items of a tuple, or else one value.  Values that can be indexed
may be left unused.
-/

namespace Trellis.Percent

open Trellis.Decimal (Shape shape BinaryValue digitLimit)

/-- What a specification says besides its conversion. -/
structure Spec where
  minus : Bool
  plus : Bool
  blank : Bool
  alternate : Bool
  zero : Bool
  width : Nat
  precision : Option Nat

/-- A specification that says nothing. -/
def Spec.plain : Spec := ⟨false, false, false, false, false, 0, none⟩

/-- The arguments that are left: the items of a tuple, or one value. -/
inductive Arguments where
  | items (values : List Value)
  | whole (value : Value) (used : Bool)

/-- The next argument. -/
def Arguments.next : Arguments → Except Cause (Value × Arguments)
  | .items (v :: vs) => .ok (v, .items vs)
  | .whole v false => .ok (v, .whole v true)
  | _ => .error .missingArguments

/-- No argument is left. -/
def Arguments.done : Arguments → Bool
  | .items vs => vs.isEmpty
  | .whole _ used => used

/-- The value has entries or can be indexed, and is neither a text nor a tuple. -/
def isMapping : Value → Bool
  | .dict _ | .list _ | .range _ _ _ | .generic _ _ _ => true
  | _ => false

/-- What stands on the right of the operator: the value with its content, and its entries, each with
its own content. -/
structure Operand where
  value : Value
  entries : List (Value × Value)

/-- The entry of a mapping that a specification names. -/
def Operand.entry (o : Operand) (key : String) : Except Cause Value :=
  match o.value with
  | .dict _ =>
    match Value.lookup? (.text key) o.entries with
    | some v => .ok v
    | none => .error (.noKey (Value.shown (.text key)))
  | .list _ => .error (.subscript "list" "str")
  | .range _ _ _ => .error (.subscript "range" "str")
  | .generic f xs u => .error (.notGeneric (Value.shown (.generic f xs u)))
  | _ => .error .notMapping

/-- The flags at the front. -/
def flags (sp : Spec) : List Char → Spec × List Char
  | '-' :: s => flags { sp with minus := true } s
  | '+' :: s => flags { sp with plus := true } s
  | ' ' :: s => flags { sp with blank := true } s
  | '#' :: s => flags { sp with alternate := true } s
  | '0' :: s => flags { sp with zero := true } s
  | s => (sp, s)

/-- The number that the digits at the front stand for. -/
def number (s : List Char) : Nat × List Char :=
  (Decimal.ofDigits 10 ((s.takeWhile Text.isAsciiDigit).filterMap Text.decimalValue?),
    s.dropWhile Text.isAsciiDigit)

/-- The key in parentheses at the front, with parentheses inside it in pairs. -/
def keyUpTo : (opened : Nat) → List Char → Option (List Char × List Char)
  | _, [] => none
  | opened, c :: s =>
    if c = ')' then
      match opened with
      | 0 => some ([], s)
      | n + 1 => (keyUpTo n s).map fun r => (c :: r.1, r.2)
    else
      (keyUpTo (if c = '(' then opened + 1 else opened) s).map fun r => (c :: r.1, r.2)

/-- The greatest width. -/
def widthLimit : Nat := 2 ^ 63 - 1

/-- The greatest precision. -/
def precisionLimit : Nat := 2 ^ 31 - 1

/-- The greatest precision of whole numbers. -/
def digitsLimit : Nat := 2 ^ 31 - 4

/-- The argument that stands for a width or a precision from `-limit - 1` to `limit`. -/
def starred (limit : Nat) (beyond : Cause) (args : Arguments) :
    Except Cause (Int × Arguments) := do
  let (v, args) ← args.next
  match v.asInt? with
  | some n => if limit < n || n < -limit - 1 then throw beyond else return (n, args)
  | none => throw .starWidth

/-- The width at the front.  A negative one asks for padding on the other side; the least one has no
opposite and asks for none. -/
def widthPart (sp : Spec) (args : Arguments) (s : List Char) :
    Except Cause (Spec × Arguments × List Char) :=
  match s with
  | '*' :: r => do
    let (n, args) ← starred widthLimit .sizeTooLarge args
    let width := if widthLimit < n.natAbs then 0 else n.natAbs
    return ({ sp with minus := sp.minus || n < 0, width }, args, r)
  | s =>
    let (n, r) := number s
    if widthLimit < n then .error .widthTooBig else .ok ({ sp with width := n }, args, r)

/-- The precision at the front. -/
def precisionPart (sp : Spec) (args : Arguments) (s : List Char) :
    Except Cause (Spec × Arguments × List Char) :=
  match s with
  | '.' :: '*' :: r => do
    let (n, args) ← starred precisionLimit .precisionTooLarge args
    return ({ sp with precision := some n.toNat }, args, r)
  | '.' :: r =>
    let (n, r) := number r
    if precisionLimit < n then .error .precisionTooBig
    else .ok ({ sp with precision := some n }, args, r)
  | s => .ok (sp, args, s)

/-- A text brought to the width of a specification; `fill` goes between `front` and `body`. -/
def pad (sp : Spec) (fill : Char) (front body : List Char) : List Char :=
  let missing := sp.width - (front.length + body.length)
  if sp.minus then front ++ body ++ List.replicate missing ' '
  else if fill = '0' then front ++ List.replicate missing '0' ++ body
  else List.replicate missing fill ++ front ++ body

/-- The sign that a number gets. -/
def sign (sp : Spec) (negative : Bool) : List Char :=
  if negative then ['-'] else if sp.plus then ['+'] else if sp.blank then [' '] else []

/-- A number brought to the width of a specification. -/
def padNumber (sp : Spec) (negative : Bool) (name body : List Char) : List Char :=
  pad sp (if sp.zero then '0' else ' ') (sign sp negative ++ name) body

/-- The magnitude of a whole number in a base, with the least number of digits that the precision
gives. -/
def magnitude (sp : Spec) (base : Nat) (n : Int) : List Char :=
  let ds := Nat.toDigits base n.natAbs
  List.replicate (sp.precision.getD 0 - ds.length) '0' ++ ds

/-- A magnitude, unless its precision is too great. -/
def limitedMagnitude (sp : Spec) (base : Nat) (n : Int) : Except Cause (List Char) :=
  if digitsLimit < sp.precision.getD 0 then .error .digitsTooMany
  else if base = 10 && Value.isLongInt n then .error .digitsWritten
  else .ok (magnitude sp base n)

/-- The whole part of a number. -/
def wholePart (conversion : Char) : Value → Except Cause Int
  | .float x =>
    match shape x with
    | .finite d => .ok d.truncate
    | .infinite _ => .error .infinityToInt
    | .nan => .error .nanToInt
  | .nan _ => .error .nanToInt
  | v =>
    match v.asInt? with
    | some n => .ok n
    | none => .error (.numberFormat conversion v.typeName)

/-- A value as a floating-point number. -/
def floating : Value → Except Cause Shape
  | .float x => .ok (shape x)
  | .nan _ => .ok .nan
  | v =>
    match v.asInt? with
    | some n =>
      match shape (Decimal.ofInt n) with
      | .infinite _ => .error .intTooLarge
      | s => .ok s
    | none => .error (.realNumber v.typeName)

/-- Upper case, for conversions written in upper case. -/
def cased (conversion : Char) (s : List Char) : List Char :=
  if conversion.isUpper then s.map Char.toUpper else s

/-- A floating-point number in the form that the conversion names. -/
def floatBody (sp : Spec) (conversion : Char) (d : BinaryValue) : List Char :=
  let precision := sp.precision.getD 6
  if conversion = 'f' || conversion = 'F' then d.fixed precision sp.alternate
  else if conversion = 'e' || conversion = 'E' then d.scientific precision 'e' sp.alternate
  else d.general precision 'e' sp.alternate

/-- A quoted text of ASCII characters alone. -/
def asciiOnly (s : List Char) : List Char :=
  s.flatMap fun c =>
    if c.toNat < 0x80 then [c]
    else Text.escapedNumber (Text.codePoint c)

/-- A text cut to the precision and brought to the width. -/
def padText (sp : Spec) (s : List Char) : List Char :=
  let s := match sp.precision with
    | some n => s.take n
    | none => s
  pad sp ' ' [] s

/-- A value whose text can be written. -/
def writable (v : Value) : Except Cause Value :=
  if v.hasLongInt then .error .digitsWritten else .ok v

/-- A value as its conversion writes it; `index` is the place of the conversion in the format. -/
def convert (sp : Spec) (conversion : Char) (index : Nat) (v : Value) :
    Except Cause (List Char) :=
  match conversion with
  | 's' => do return padText sp (← writable v).plain.toList
  | 'r' => do return padText sp (← writable v).shown.toList
  | 'a' => do return padText sp (asciiOnly (← writable v).shown.toList)
  | 'c' =>
    match v with
    | .text s =>
      match s.toList with
      | [c] => .ok (pad sp ' ' [] [c])
      | _ => .error .characterFormat
    | v =>
      match v.asInt? with
      | some n =>
        if 0 ≤ n && n < 0x110000 then .ok (pad sp ' ' [] [Text.ofCodePoint n.toNat])
        else .error .characterRange
      | none => .error .characterFormat
  | 'd' | 'i' | 'u' => do
    let n ← wholePart conversion v
    return padNumber sp (n < 0) [] (← limitedMagnitude sp 10 n)
  | 'x' | 'X' | 'o' =>
    match v.asInt? with
    | none => .error (.integerFormat conversion v.typeName)
    | some n => do
      let base := if conversion = 'o' then 8 else 16
      let name := if sp.alternate then ['0', conversion] else []
      return padNumber sp (n < 0) name (cased conversion (← limitedMagnitude sp base n))
  | 'e' | 'E' | 'f' | 'F' | 'g' | 'G' => do
    match ← floating v with
    | .nan => return padNumber sp false [] (cased conversion ['n', 'a', 'n'])
    | .infinite negative => return padNumber sp negative [] (cased conversion ['i', 'n', 'f'])
    | .finite d => return padNumber sp d.negative [] (cased conversion (floatBody sp conversion d))
  | c => .error (.formatSpec c index)

/-- A value as its conversion writes it, if there is room for the width. -/
def place (sp : Spec) (conversion : Char) (index : Nat) (v : Value) : Except Cause (List Char) :=
  if Value.roomLimit < sp.width then do
    let _ ← convert { sp with width := 0 } conversion index v
    throw .noRoom
  else convert sp conversion index v

/-- The argument that a specification takes, with what is left of the format after its name. -/
def named (o : Operand) (args : Arguments) (s : List Char) :
    Except Cause (Arguments × List Char) :=
  match s with
  | '(' :: r =>
    if isMapping o.value then
      match keyUpTo 0 r with
      | none => .error .formatKeyIncomplete
      | some (k, r) => do return (.whole (← o.entry (String.ofList k)) false, r)
    else .error .notMapping
  | s => .ok (args, s)

/-- Without a letter for the size of a number. -/
def dropSize : List Char → List Char
  | 'h' :: s => s
  | 'l' :: s => s
  | 'L' :: s => s
  | s => s

/-- The specification at the front, after its percent sign, applied. -/
def apply (length : Nat) (o : Operand) (args : Arguments) (s : List Char) :
    Except Cause (List Char × Arguments × List Char) := do
  match s with
  | '%' :: r => return (['%'], args, r)
  | s =>
    let (args, s) ← named o args s
    let (sp, s) := flags .plain s
    let (sp, args, s) ← widthPart sp args s
    let (sp, args, s) ← precisionPart sp args s
    match dropSize s with
    | [] => throw .formatIncomplete
    | c :: r =>
      let (v, args) ← args.next
      return (← place sp c (length - r.length - 1) v, args, r)

/-- The format from here on, with the arguments put in. -/
def scan (length : Nat) (o : Operand) :
    (fuel : Nat) → Arguments → List Char → Except Cause (List Char × Arguments)
  | 0, args, _ => .ok ([], args)
  | _ + 1, args, [] => .ok ([], args)
  | fuel + 1, args, c :: s =>
    if c = '%' then do
      let (out, args, r) ← apply length o args s
      let (rest, args) ← scan length o fuel args r
      return (out ++ rest, args)
    else do
      let (rest, args) ← scan length o fuel args s
      return (c :: rest, args)

/-- A text formatted with an operand. -/
def format (s : String) (o : Operand) : Except Cause String := do
  let args := match o.value with
    | .tuple vs => .items vs
    | v => .whole v false
  let cs := s.toList
  let (out, args) ← scan cs.length o (cs.length + 1) args cs
  if args.done || isMapping o.value then return String.ofList out
  else throw .unusedArguments

end Trellis.Percent
