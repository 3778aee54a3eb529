import Trellis.Expr.Basic
import Trellis.Expr.Matcher
import Trellis.Decimal.Reading

/-!
# Expr — Token

The tokens of expressions: white space, words, symbols, numbers, texts and identifiers, and what
the literals among them stand for.  A word ends where no word character follows.
-/

namespace Trellis.Expr.Token

open Trellis.Text (isSpace isWord isDecimal isAsciiLetter isAsciiDigit)

/-- A run of characters of a class, which may be empty. -/
def run (p : Char → Bool) : Pattern := fun s => some (s.takeWhile p, s.dropWhile p)

/-- White space, which may be absent. -/
def space : Pattern := run isSpace

/-- A fixed text. -/
def exactly (t : List Char) : Pattern := fun s =>
  if t.isPrefixOf s then some (t, s.drop t.length) else none

/-- No word character follows. -/
def endsWord : List Char → Bool
  | [] => true
  | c :: _ => !isWord c

/-- A whole word. -/
def word (w : String) : Pattern := fun s =>
  match exactly w.toList s with
  | some (t, r) => if endsWord r then some (t, r) else none
  | none => none

/-- One of several patterns, the first that fits. -/
def oneOf : List Pattern → Pattern
  | [], _ => none
  | p :: ps, s =>
    match p s with
    | some r => some r
    | none => oneOf ps s

/-- The words that are no identifiers. -/
def reserved : List String :=
  ["and", "or", "not", "in", "true", "false", "null", "True", "False", "None", "undefined"]

/-- A reserved word. -/
def reservedWord : Pattern := oneOf (reserved.map word)

/-- The word for a truth value. -/
def truthWord : Pattern := oneOf (["true", "false", "True", "False"].map word)

/-- The word for the empty value. -/
def nullWord : Pattern := oneOf (["null", "None", "undefined"].map word)

/-- The letters that differ from ASCII letters in case alone. -/
def isCaseVariant (c : Char) : Bool :=
  c.toNat = 0x130 || c.toNat = 0x17f || c.toNat = 0x212a

/-- A character that can start an identifier. -/
def startsName (c : Char) : Bool :=
  isAsciiLetter c || c = '_' || c = '$' || isCaseVariant c

/-- A character that can go on in an identifier. -/
def continuesName (c : Char) : Bool :=
  startsName c || isAsciiDigit c

/-- An identifier, or a reserved word. -/
def identifier : Pattern
  | [] => none
  | c :: s =>
    if startsName c then some (c :: s.takeWhile continuesName, s.dropWhile continuesName) else none

/-! ### Numbers -/

/-- One digit at least. -/
def digits : Pattern := fun s =>
  match s.takeWhile isDecimal with
  | [] => none
  | ds => some (ds, s.dropWhile isDecimal)

/-- A number up to its exponent: digits with a point in front, among or after them. -/
def mantissa : Pattern := fun s =>
  match s with
  | '.' :: r => (digits r).map fun d => ('.' :: d.1, d.2)
  | s =>
    match digits s with
    | some (ds, '.' :: r) => some (ds ++ '.' :: r.takeWhile isDecimal, r.dropWhile isDecimal)
    | d => d

/-- A sign, which may be absent. -/
def optionalSign : List Char → List Char × List Char
  | '+' :: r => (['+'], r)
  | '-' :: r => (['-'], r)
  | s => ([], s)

/-- An exponent, which may be absent. -/
def exponent (s : List Char) : List Char × List Char :=
  match s with
  | c :: r =>
    if c = 'e' || c = 'E' then
      match digits (optionalSign r).2 with
      | some (ds, r') => (c :: (optionalSign r).1 ++ ds, r')
      | none => ([], s)
    else ([], s)
  | [] => ([], [])

/-- A number. -/
def number : Pattern := fun s =>
  match mantissa s with
  | some (m, r) => some (m ++ (exponent r).1, (exponent r).2)
  | none => none

/-- A number with a point or an exponent. -/
def isFloating (t : List Char) : Bool :=
  t.any fun c => c = '.' || c = 'e' || c = 'E'

/-- The literal that a number stands for. -/
def numberLiteral (t : List Char) : Literal :=
  if isFloating t then
    match Decimal.floatingPoint? t with
    | some x => .floating x
    | none => .unreadable
  else
    match Decimal.wholeNumber? 10 t with
    | .value n => .whole n.toNat
    | .tooLong _ | .malformed => .unreadable

/-! ### Texts -/

/-- A text up to and with the closing quote.  A character after a backslash is part of the text,
unless it ends the line. -/
def textBody (quote : Char) : Pattern
  | [] => none
  | '\\' :: '\n' :: _ => none
  | '\\' :: c :: s => (textBody quote s).map fun r => ('\\' :: c :: r.1, r.2)
  | c :: s =>
    if c = quote then some ([c], s)
    else if c = '\\' then none
    else (textBody quote s).map fun r => (c :: r.1, r.2)

/-- A text in given quotes. -/
def textIn (quote : Char) : Pattern
  | [] => none
  | c :: s => if c = quote then (textBody quote s).map fun r => (c :: r.1, r.2) else none

/-- A text in quotes of either kind. -/
def quoted : Pattern := oneOf [textIn '"', textIn '\'']

/-- The character that a backslash and `c` stand for. -/
def unescaped (c : Char) : Char :=
  if c = 'n' then '\n'
  else if c = 't' then '\t'
  else if c = 'r' then '\r'
  else if c = '0' then '\x00'
  else c

/-- The characters that the inside of a text in quotes stands for. -/
def unquoteBody : List Char → List Char
  | [] => []
  | ['\\'] => []
  | '\\' :: c :: s => unescaped c :: unquoteBody s
  | c :: s => c :: unquoteBody s

/-- The text that a text in quotes stands for. -/
def unquote (t : List Char) : String :=
  String.ofList (unquoteBody (t.drop 1).dropLast)

/-! ### Operators -/

/-- The word or symbol in front of what is denied. -/
def denial : Pattern := oneOf [word "not", exactly "!".toList]

/-- The symbol or word between the operands of a conjunction. -/
def conjunctive : Pattern := oneOf [exactly "&&".toList, word "and"]

/-- The symbol or word between the operands of a disjunction. -/
def disjunctive : Pattern := oneOf [exactly "||".toList, word "or"]

/-- The words "not" and "in" with white space between them. -/
def notInWords : Pattern := fun s =>
  match exactly "not".toList s with
  | none => none
  | some (t, r) =>
    match r.takeWhile isSpace with
    | [] => none
    | gap =>
      match word "in" (r.dropWhile isSpace) with
      | some (u, r') => some (t ++ gap ++ u, r')
      | none => none

/-- The comparisons with their patterns, in the order in which they are tried. -/
def comparisons : List (Operator × Pattern) :=
  [(.strictEq, exactly "===".toList), (.strictNe, exactly "!==".toList),
    (.eq, exactly "==".toList), (.ne, exactly "!=".toList), (.le, exactly "<=".toList),
    (.ge, exactly ">=".toList), (.lt, exactly "<".toList), (.gt, exactly ">".toList),
    (.notIn, notInWords), (.isIn, word "in")]

/-- The operators of sums with their patterns. -/
def sums : List (Operator × Pattern) :=
  [Operator.add, .sub].map fun o => (o, exactly o.symbol.toList)

/-- The operators of products with their patterns. -/
def products : List (Operator × Pattern) :=
  [Operator.mul, .div, .mod].map fun o => (o, exactly o.symbol.toList)

end Trellis.Expr.Token
