import Trellis.Text.Classes

/-!
# Text — Search

Cutting and searching lists of characters.  `pieces` cuts at the non-overlapping occurrences of a
separator, from the left; replacing, counting and splitting are read off it.
-/

namespace Trellis.Text

/-- Without the leading characters of a class. -/
def dropLeading (p : Char → Bool) (s : List Char) : List Char :=
  s.dropWhile p

/-- Without the trailing characters of a class. -/
def dropTrailing (p : Char → Bool) (s : List Char) : List Char :=
  (s.reverse.dropWhile p).reverse

/-- Without the characters of a class at both ends. -/
def strip (p : Char → Bool) (s : List Char) : List Char :=
  dropTrailing p (dropLeading p s)

/-- A text without blanks at both ends. -/
def stripBlank (s : String) : String :=
  String.ofList (strip isBlank s.toList)

/-- `c` in front of the first piece. -/
def consPiece (c : Char) : List (List Char) → List (List Char)
  | [] => [[c]]
  | p :: ps => (c :: p) :: ps

/-- The pieces of a text between at most `limit` occurrences of the non-empty separator `sep`.
The first number counts the characters of a separator that are still to be passed over. -/
def pieces (sep : List Char) : (pass limit : Nat) → List Char → List (List Char)
  | _, _, [] => [[]]
  | pass + 1, limit, _ :: s => pieces sep pass limit s
  | 0, limit, c :: s =>
    if 0 < limit && sep.isPrefixOf (c :: s) then [] :: pieces sep (sep.length - 1) (limit - 1) s
    else consPiece c (pieces sep 0 limit s)

/-- The pieces of `s` between all occurrences of `sep`. -/
def splitOn (sep s : List Char) : List (List Char) :=
  pieces sep 0 (s.length + 1) s

/-- The offset of the first occurrence of `needle`. -/
def indexOf? (needle : List Char) : List Char → Option Nat
  | [] => if needle.isEmpty then some 0 else none
  | c :: s => if needle.isPrefixOf (c :: s) then some 0 else (indexOf? needle s).map (· + 1)

/-- `needle` occurs in `s`. -/
def occursIn (needle s : List Char) : Bool :=
  (indexOf? needle s).isSome

/-- The number of non-overlapping occurrences; an empty needle occurs around every character. -/
def countOf (needle s : List Char) : Nat :=
  if needle.isEmpty then s.length + 1 else (splitOn needle s).length - 1

/-- `new` in front of each of the first `limit` characters, and after the last if `limit` goes
that far. -/
def interleave (new : List Char) : (limit : Nat) → List Char → List Char
  | 0, s => s
  | _ + 1, [] => new
  | limit + 1, c :: s => new ++ c :: interleave new limit s

/-- `s` with the first `limit` occurrences of `old` replaced. -/
def replace (old new : List Char) (limit : Nat) (s : List Char) : List Char :=
  if old.isEmpty then interleave new limit s
  else new.intercalate (pieces old 0 limit s)

/-- The words of a text, at most `limit` of them cut off; what is left keeps its trailing blanks. -/
def wordsAux : (fuel limit : Nat) → List Char → List (List Char)
  | 0, _, _ => []
  | fuel + 1, limit, s =>
    match dropLeading isBlank s with
    | [] => []
    | c :: r =>
      if limit = 0 then [c :: r]
      else (c :: r).takeWhile (!isBlank ·) ::
        wordsAux fuel (limit - 1) ((c :: r).dropWhile (!isBlank ·))

/-- The words of a text, at most `limit` of them cut off from the left. -/
def words (limit : Nat) (s : List Char) : List (List Char) :=
  wordsAux (s.length + 1) limit s

/-- Texts in the order of their characters' code points. -/
def sorted (ts : List String) : List String :=
  ts.mergeSort fun s t => !decide (t < s)

end Trellis.Text
