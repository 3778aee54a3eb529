import Trellis.Value.Fault

/-!
# Json — Reader

Values read from serialized texts.  A reading step takes what it needs from the front of the
characters and returns the rest.  A problem records how many characters were left where it
occurred; its line, column and offset are computed from that in the end.

Nesting is bounded by the number of characters, which is the depth `value` is given.
-/

namespace Trellis.Json

/-- Why a text cannot be read. -/
inductive Problem where
  | words (words : String) (left : Nat)
  | cause (cause : Cause)

/-- A reading step. -/
abbrev Step (α : Type) := List Char → Except Problem (α × List Char)

/-- The problem `words` in front of `s`. -/
def problem {α : Type} (words : String) (s : List Char) : Except Problem α :=
  .error (.words words s.length)

/-- White space between the parts of a serialized text. -/
def isGap (c : Char) : Bool :=
  c = ' ' || c = '\t' || c = '\n' || c = '\r'

/-- The characters after white space. -/
def skip (s : List Char) : List Char :=
  s.dropWhile isGap

/-- The value of a hexadecimal digit. -/
def hexValue? (c : Char) : Option Nat :=
  if Text.isAsciiDigit c then some (c.toNat - '0'.toNat)
  else if 'a' ≤ c && c ≤ 'f' then some (c.toNat - 'a'.toNat + 10)
  else if 'A' ≤ c && c ≤ 'F' then some (c.toNat - 'A'.toNat + 10)
  else none

/-- The code unit that four hexadecimal digits stand for. -/
def unit? (a b c d : Char) : Option Nat := do
  return (← hexValue? a) * 4096 + (← hexValue? b) * 256 + (← hexValue? c) * 16 + (← hexValue? d)

/-- The character of the two halves of a pair. -/
def charOfPair (high low : Nat) : Char :=
  Char.ofNat (0x10000 + (high - 0xd800) * 0x400 + (low - 0xdc00))

/-- The character that a letter after a backslash stands for. -/
def escaped? (c : Char) : Option Char :=
  if c = '"' || c = '\\' || c = '/' then some c
  else if c = 'b' then some (Char.ofNat 0x08)
  else if c = 'f' then some (Char.ofNat 0x0c)
  else if c = 'n' then some '\n'
  else if c = 'r' then some '\r'
  else if c = 't' then some '\t'
  else none

/-- A part of a text: a character, or a code unit written as an escape. -/
inductive Piece where
  | char (c : Char)
  | unit (n : Nat)

/-- The characters of the parts of a text; two escapes that are halves of a pair give one. -/
def joinPieces : List Piece → List Char
  | [] => []
  | .char c :: ps => c :: joinPieces ps
  | .unit n :: .unit m :: ps =>
    if 0xd800 ≤ n && n < 0xdc00 && 0xdc00 ≤ m && m < 0xe000 then charOfPair n m :: joinPieces ps
    else Text.ofCodePoint n :: joinPieces (.unit m :: ps)
  | .unit n :: ps => Text.ofCodePoint n :: joinPieces ps

/-- `p` in front of the parts read. -/
def consPiece (p : Piece) :
    Except Problem (List Piece × List Char) → Except Problem (List Piece × List Char)
  | .ok (ps, rest) => .ok (p :: ps, rest)
  | .error e => .error e

/-- The parts of a text up to its closing quote; `opening` characters were left at the opening
one. -/
def textPieces (opening : Nat) : List Char → Except Problem (List Piece × List Char)
  | [] => .error (.words "Unterminated string starting at" opening)
  | '"' :: s => .ok ([], s)
  | ['\\'] => .error (.words "Unterminated string starting at" opening)
  | '\\' :: 'u' :: a :: b :: c :: d :: s =>
    match unit? a b c d with
    | none => .error (.words "Invalid \\uXXXX escape" (s.length + 5))
    | some n =>
      if s.isEmpty then .error (.words "Invalid \\uXXXX escape" 5)
      else consPiece (.unit n) (textPieces opening s)
  | '\\' :: e :: s =>
    match escaped? e with
    | some c => consPiece (.char c) (textPieces opening s)
    | none =>
      if e = 'u' then .error (.words "Invalid \\uXXXX escape" (s.length + 1))
      else .error (.words "Invalid \\escape" (s.length + 2))
  | c :: s =>
    if c.toNat < 0x20 then .error (.words "Invalid control character at" (s.length + 1))
    else consPiece (.char c) (textPieces opening s)

/-- A text, after its opening quote. -/
def text : Step String := fun s =>
  match textPieces (s.length + 1) s with
  | .ok (ps, rest) => .ok (String.ofList (joinPieces ps), rest)
  | .error p => .error p

/-- The digits at the front. -/
def digits (s : List Char) : List Char × List Char :=
  (s.takeWhile Text.isAsciiDigit, s.dropWhile Text.isAsciiDigit)

/-- The digits of a whole number: a zero alone, or digits that do not start with zero. -/
def wholeDigits : List Char → List Char × List Char
  | '0' :: s => (['0'], s)
  | s => digits s

/-- The digits after a point; none if there is no point or no digit after it. -/
def placeDigits : List Char → List Char × List Char
  | '.' :: s =>
    match digits s with
    | ([], _) => ([], '.' :: s)
    | r => r
  | s => ([], s)

/-- The exponent; none if there is no mark or no digit after it. -/
def exponentPart (s : List Char) : Option Int × List Char :=
  match s with
  | c :: r =>
    if c = 'e' || c = 'E' then
      let (negative, r) := Decimal.splitSign r
      match digits r with
      | ([], _) => (none, s)
      | (ds, rest) =>
        let n : Int := Decimal.ofDigits 10 (ds.filterMap Text.decimalValue?)
        (some (if negative then -n else n), rest)
    else (none, s)
  | [] => (none, s)

/-- A number without its sign. -/
def magnitude (negative : Bool) (s : List Char) : Except Problem (Value × List Char) :=
  match wholeDigits s with
  | ([], _) => problem "Expecting value" (if negative then '-' :: s else s)
  | (whole, r) =>
    let (places, r') := placeDigits r
    let (exponent, r'') := exponentPart r'
    if places.isEmpty && exponent.isNone then
      if Decimal.digitLimit < whole.length then .error (.cause (.digitsRead whole.length))
      else
        let n : Int := Decimal.ofDigits 10 (whole.filterMap Text.decimalValue?)
        .ok (.int (if negative then -n else n), r'')
    else
      let n := Decimal.ofDigits 10 ((whole ++ places).filterMap Text.decimalValue?)
      .ok (.float (Decimal.ofDecimal negative n (exponent.getD 0 - places.length)), r'')

/-- `word` at the front stands for `v`. -/
def word? (word : String) (v : Value) (s : List Char) : Option (Value × List Char) :=
  if word.toList.isPrefixOf s then some (v, s.drop word.length) else none

/-- The constants. -/
def constants : List (String × Value) :=
  [("null", .none), ("true", .bool true), ("false", .bool false), ("NaN", .nan 0),
    ("Infinity", .float (1.0 / 0.0)), ("-Infinity", .float (-1.0 / 0.0))]

/-- A constant or a number. -/
def scalar : Step Value := fun s =>
  match constants.findSome? fun p => word? p.1 p.2 s with
  | some r => .ok r
  | none =>
    match s with
    | '-' :: r => magnitude true r
    | _ => magnitude false s

/-- The parts of a container after the first, up to the character that closes it. -/
def moreParts {α : Type} (part : Step α) (close : Char) : (fuel : Nat) → Step (List α)
  | 0, s => problem "Expecting ',' delimiter" s
  | fuel + 1, s => do
    let s := skip s
    if s.head? = some close then .ok ([], s.tail)
    else if s.head? = some ',' then
      let (x, r) ← part (skip s.tail)
      let (xs, r) ← moreParts part close fuel r
      return (x :: xs, r)
    else problem "Expecting ',' delimiter" s

/-- The parts of a container, after the character that opens it. -/
def parts {α : Type} (part : Step α) (close : Char) : Step (List α) := fun s => do
  let s := skip s
  if s.head? = some close then .ok ([], s.tail)
  else
    let (x, r) ← part s
    let (xs, r) ← moreParts part close r.length.succ r
    return (x :: xs, r)

/-- An entry of an object. -/
def entry (item : Step Value) : Step (Value × Value) := fun s =>
  match s with
  | '"' :: r => do
    let (k, r) ← text r
    match skip r with
    | ':' :: r => do
      let (v, r) ← item (skip r)
      return ((.text k, v), r)
    | r => problem "Expecting ':' delimiter" r
  | r => problem "Expecting property name enclosed in double quotes" r

/-- A dictionary of entries: the last value of a key, in the place of the first. -/
def ofEntries (es : List (Value × Value)) : Value :=
  .dict (es.foldl (fun d e => Value.insert e.1 e.2 d) [])

/-- A value whose nesting is at most `depth`. -/
def value : (depth : Nat) → Step Value
  | 0, s => problem "Expecting value" s
  | depth + 1, s =>
    match s with
    | '"' :: r => do
      let (t, r) ← text r
      return (.text t, r)
    | '[' :: r => do
      let (xs, r) ← parts (value depth) ']' r
      return (.list xs, r)
    | '{' :: r => do
      let (es, r) ← parts (entry (value depth)) '}' r
      return (ofEntries es, r)
    | s => scalar s

/-- The cause of a problem in the text `s`. -/
def Problem.toCause (s : List Char) : Problem → Cause
  | .cause c => c
  | .words w left =>
    let offset := s.length - left
    let before := s.take offset
    let line := before.count '\n' + 1
    let column := (before.reverse.takeWhile (· != '\n')).length + 1
    .jsonAt w line column offset

/-- The value that a whole text stands for. -/
def readAll (s : List Char) : Except Problem Value := do
  if s.head? = some (Char.ofNat 0xfeff) then
    problem "Unexpected UTF-8 BOM (decode using utf-8-sig)" s
  else
    let (v, r) ← value (s.length + 1) (skip s)
    match skip r with
    | [] => return v
    | r => problem "Extra data" r

/-- The value that a serialized text stands for. -/
def read (s : String) : Except Cause Value :=
  match readAll s.toList with
  | .ok v => .ok v
  | .error p => .error (p.toCause s.toList)

end Trellis.Json
