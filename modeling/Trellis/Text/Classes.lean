import Trellis.Text.Table.Word
import Trellis.Text.Table.Alphanumeric
import Trellis.Text.Table.Printable
import Trellis.Text.Table.Digit

/-!
# Text — Classes

Classes of characters.  Three notions of separation are kept apart:

* `isSpace` is the White_Space property, which separates the tokens of an expression;
* `isBlank` has the four information separators as well, and is what `strip` removes;
* `isWord` and `isAlnum` decide where a word ends, the first in expressions, the second in the
  headers of directives.  Marks and joiners are in the first alone, superscripts and fractions
  in the second alone.

Above ASCII the classes are read off tables: `isWord` and `isDecimal`, which serve expressions
alone, off tables of Unicode 17, the others off tables of Unicode 14.
-/

namespace Trellis.Text

/-- `n` lies in one of the ranges of `table`. -/
def inRanges (table : Array (Nat × Nat)) (n : Nat) : Bool :=
  table.any fun r => r.1 ≤ n && n ≤ r.2

/-- White space of the expression language. -/
def isSpace (c : Char) : Bool :=
  let n := c.toNat
  (9 ≤ n && n ≤ 13) || n == 0x20 || n == 0x85 || n == 0xa0 || n == 0x1680 ||
    (0x2000 ≤ n && n ≤ 0x200a) || n == 0x2028 || n == 0x2029 || n == 0x202f || n == 0x205f ||
    n == 0x3000

/-- White space of texts: `isSpace` and the information separators. -/
def isBlank (c : Char) : Bool :=
  isSpace c || (0x1c ≤ c.toNat && c.toNat ≤ 0x1f)

/-- An ASCII digit. -/
def isAsciiDigit (c : Char) : Bool :=
  '0' ≤ c && c ≤ '9'

/-- An ASCII letter. -/
def isAsciiLetter (c : Char) : Bool :=
  ('a' ≤ c && c ≤ 'z') || ('A' ≤ c && c ≤ 'Z')

/-- The zero of the block of ten digits that a character is in. -/
def zeroOf? (zeros : Array Nat) (c : Char) : Option Nat :=
  zeros.find? fun z => z ≤ c.toNat && c.toNat ≤ z + 9

/-- The value of a decimal digit of any script. -/
def decimalValue? (c : Char) : Option Nat :=
  if isAsciiDigit c then some (c.toNat - '0'.toNat)
  else if c.toNat < 128 then none
  else (zeroOf? Table.zeros c).map (c.toNat - ·)

/-- A decimal digit of the expression language: one that has a value or is in a later block. -/
def isDecimal (c : Char) : Bool :=
  (decimalValue? c).isSome || (zeroOf? Table.laterZeros c).isSome

/-- A digit in the wide sense: decimal digits, superscripts, circled digits. -/
def isDigit (c : Char) : Bool :=
  if c.toNat < 128 then isAsciiDigit c else inRanges Table.digit c.toNat

/-- A word character of the expression language. -/
def isWord (c : Char) : Bool :=
  if c.toNat < 128 then isAsciiLetter c || isAsciiDigit c || c == '_'
  else inRanges Table.word c.toNat

/-- A word character of a directive's header. -/
def isAlnum (c : Char) : Bool :=
  if c.toNat < 128 then isAsciiLetter c || isAsciiDigit c || c == '_'
  else inRanges Table.alphanumeric c.toNat

/-- A character that a quoted text shows as it is. -/
def isPrintable (c : Char) : Bool :=
  if c.toNat < 128 then 0x20 ≤ c.toNat && c.toNat ≤ 0x7e
  else inRanges Table.printable c.toNat

theorem isBlank_of_isSpace {c : Char} (h : isSpace c = true) : isBlank c = true := by
  simp [isBlank, h]

/-- Every decimal digit has a value below ten. -/
theorem decimalValue?_lt {c : Char} {n : Nat} (h : decimalValue? c = some n) : n < 10 := by
  unfold decimalValue? at h
  split at h
  · next hd =>
    simp only [isAsciiDigit, Bool.and_eq_true, decide_eq_true_eq, Char.le_def] at hd
    obtain rfl := Option.some.inj h
    have h₂ : c.toNat ≤ 57 := hd.2
    have h₀ : '0'.toNat = 48 := rfl
    omega
  · split at h
    · cases h
    · unfold zeroOf? at h
      obtain ⟨z, hz, rfl⟩ := Option.map_eq_some_iff.1 h
      have := Array.find?_some hz
      simp only [Bool.and_eq_true, decide_eq_true_eq] at this
      omega

end Trellis.Text
