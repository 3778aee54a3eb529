import Trellis.Text.Classes
import Trellis.Text.Table.Case

/-!
# Text — Casing

Upper, lower and title case.  A mapping can give several characters.  A sigma at the end of a
word, between cased characters only on its left, has its own lower case.
-/

namespace Trellis.Text

/-- The character a table of shifts gives for `c`. -/
def shifted? (table : Array Table.Shift) (c : Char) : Option Char :=
  let n := c.toNat
  (table.find? fun s => s.first ≤ n && n ≤ s.last && (n - s.first) % s.step == 0).map
    fun s => Char.ofNat ((n : Int) + s.delta).toNat

/-- The characters a table of long mappings gives for `c`. -/
def expanded? (table : Array (Nat × List Nat)) (c : Char) : Option (List Char) :=
  (table.find? fun r => r.1 == c.toNat).map fun r => r.2.map Char.ofNat

/-- Upper case of one character. -/
def upperChar (c : Char) : List Char :=
  if c.toNat < 128 then
    [if 'a' ≤ c && c ≤ 'z' then Char.ofNat (c.toNat - 32) else c]
  else
    match expanded? Table.upperLong c with
    | some cs => cs
    | none => [(shifted? Table.upperShift c).getD c]

/-- Lower case of one character, without regard to its place in a word. -/
def lowerChar (c : Char) : List Char :=
  if c.toNat < 128 then
    [if 'A' ≤ c && c ≤ 'Z' then Char.ofNat (c.toNat + 32) else c]
  else
    match expanded? Table.lowerLong c with
    | some cs => cs
    | none => [(shifted? Table.lowerShift c).getD c]

/-- Title case of one character. -/
def titleChar (c : Char) : List Char :=
  match expanded? Table.titleLong c with
  | some cs => cs
  | none => upperChar c

/-- A character that has a case. -/
def isCased (c : Char) : Bool :=
  if c.toNat < 128 then isAsciiLetter c else inRanges Table.cased c.toNat

/-- A character that is passed over in the search for a cased neighbour. -/
def isCaseIgnorable (c : Char) : Bool :=
  inRanges Table.caseIgnorable c.toNat

/-- The nearest neighbour in `side` that is not passed over is cased. -/
def meetsCased (side : List Char) : Bool :=
  match side.dropWhile isCaseIgnorable with
  | [] => false
  | c :: _ => isCased c

/-- Lower case of `c` between the characters `before` (nearest first) and `after`. -/
def lowerCharIn (before : List Char) (c : Char) (after : List Char) : List Char :=
  if c.toNat = 0x3a3 then
    [if meetsCased before && !meetsCased after then Char.ofNat 0x3c2 else Char.ofNat 0x3c3]
  else lowerChar c

/-- Lower case of the text `after` the characters `before` (nearest first). -/
def lowerAfter (before : List Char) : (after : List Char) → List Char
  | [] => []
  | c :: s => lowerCharIn before c s ++ lowerAfter (c :: before) s

/-- Upper case of a text. -/
def upper (s : List Char) : List Char :=
  s.flatMap upperChar

/-- Lower case of a text. -/
def lower (s : List Char) : List Char :=
  lowerAfter [] s

/-- The first character in title case and the rest in lower case. -/
def capitalize : List Char → List Char
  | [] => []
  | c :: s => titleChar c ++ lowerAfter [c] s

/-- Title case of the text `after` the characters `before` (nearest first): each cased character
that does not follow a cased one in title case, the others in lower case. -/
def titleAfter (before : List Char) : (after : List Char) → List Char
  | [] => []
  | c :: s =>
    (if before.head?.any isCased then lowerCharIn before c s else titleChar c) ++
      titleAfter (c :: before) s

/-- Title case of a text. -/
def title (s : List Char) : List Char :=
  titleAfter [] s

end Trellis.Text
