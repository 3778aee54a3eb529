import Trellis.Text.Classes
import Trellis.Text.CodePoint

/-!
# Text — Quoted

The quoted form of a text, used where a text stands inside another value or in a message.  The
quote is the single one unless the text has single quotes and no double ones.  The quote, the
backslash and the characters that do not print are escaped.
-/

namespace Trellis.Text

/-- A hexadecimal digit, in lower case. -/
def hexDigit (n : Nat) : Char :=
  if n < 10 then Char.ofNat (0x30 + n) else Char.ofNat (0x57 + n)

/-- `n` in hexadecimal, padded with zeros to `width` digits. -/
def hexDigits : (width : Nat) → (n : Nat) → List Char
  | 0, _ => []
  | width + 1, n => hexDigits width (n / 16) ++ [hexDigit (n % 16)]

/-- The quote that `quoted` puts around a text. -/
def quoteOf (s : List Char) : Char :=
  if s.contains '\'' && !s.contains '"' then '"' else '\''

/-- The escape of a code point. -/
def escapedNumber (n : Nat) : List Char :=
  if n < 0x100 then '\\' :: 'x' :: hexDigits 2 n
  else if n < 0x10000 then '\\' :: 'u' :: hexDigits 4 n
  else '\\' :: 'U' :: hexDigits 8 n

/-- One character of a quoted text. -/
def quotedChar (quote c : Char) : List Char :=
  if c = quote || c = '\\' then ['\\', c]
  else if c = '\n' then ['\\', 'n']
  else if c = '\r' then ['\\', 'r']
  else if c = '\t' then ['\\', 't']
  else if isPrintable c then [c]
  else escapedNumber (codePoint c)

/-- The quoted form of a list of characters. -/
def quotedChars (s : List Char) : List Char :=
  quoteOf s :: s.flatMap (quotedChar (quoteOf s)) ++ [quoteOf s]

/-- The quoted form of a text. -/
def quoted (s : String) : String :=
  String.ofList (quotedChars s.toList)

end Trellis.Text
