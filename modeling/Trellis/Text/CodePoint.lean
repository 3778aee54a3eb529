/-!
# Text — Code point

The numbers of characters.  Texts can hold the halves of surrogate pairs one by one, which are code
points but no characters: `%c` makes them, and so do escapes in serialized texts.  A character that
is not assigned stands in for each, and has the half's number (`codePoint_ofCodePoint_half`).

The characters that stand in, U+E8000 to U+E87FF, are lost to texts themselves: one that a text holds
as such is read as the half that it stands in for.
-/

namespace Trellis.Text

/-- The first half of a surrogate pair. -/
def firstHalf : Nat := 0xd800

/-- The number of halves of surrogate pairs. -/
def halfCount : Nat := 0x800

/-- The character that stands in for the first half. -/
def firstStandIn : Nat := 0xe8000

/-- The character of a code point. -/
def ofCodePoint (n : Nat) : Char :=
  if firstHalf ≤ n && n < firstHalf + halfCount then Char.ofNat (firstStandIn + (n - firstHalf))
  else Char.ofNat n

/-- The code point of a character. -/
def codePoint (c : Char) : Nat :=
  let n := c.toNat
  if firstStandIn ≤ n && n < firstStandIn + halfCount then firstHalf + (n - firstStandIn) else n

/-- The character that stands in for a half has the half's number. -/
theorem codePoint_ofCodePoint_half {n : Nat} (h : firstHalf ≤ n) (h' : n < firstHalf + halfCount) :
    codePoint (ofCodePoint n) = n := by
  have hv : (firstStandIn + (n - firstHalf)).isValidChar := by
    simp only [firstHalf, halfCount, firstStandIn, Nat.isValidChar] at *
    omega
  have ht : (Char.ofNat (firstStandIn + (n - firstHalf))).toNat =
      firstStandIn + (n - firstHalf) := by
    rw [Char.ofNat, dif_pos hv]
    rfl
  simp only [ofCodePoint, h, h', decide_true, Bool.and_self, if_true, codePoint, ht]
  have hr : firstStandIn ≤ firstStandIn + (n - firstHalf) ∧
      firstStandIn + (n - firstHalf) < firstStandIn + halfCount := by omega
  simp only [hr, decide_true, Bool.and_self, if_true]
  omega

end Trellis.Text
