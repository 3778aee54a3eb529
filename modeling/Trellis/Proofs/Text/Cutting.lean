import Mathlib.Data.List.TakeWhile
import Trellis.Text.Search

/-!
# Proofs — Text — Cutting

Texts without what leads or trails in them, and texts cut at a character.

* `dropLeading_append`, `dropTrailing_append`: nothing but the part in question is dropped.
* `splitOn_singleton`: cutting at a text of one character is `List.splitOn`.
* `intercalate_singleton`: texts with a character between each two are a text with the others
  behind it, each after the character.
-/

namespace Trellis.Text

variable {q : Char → Bool} {s t : List Char}

/-! ### What leads and what trails -/

/-- Leading characters of a kind are dropped as far as they go. -/
theorem dropLeading_append (hs : s.all q = true) (ht : ∀ c ∈ t.head?, q c = false) :
    dropLeading q (s ++ t) = t := by
  unfold dropLeading
  rw [List.dropWhile_append_of_pos (List.all_eq_true.mp hs)]
  cases t with
  | nil => rfl
  | cons c t => simp [ht c rfl]

/-- What is dropped in front is of the kind, and what is left begins with no such character. -/
theorem exists_dropLeading (q : Char → Bool) (s : List Char) :
    ∃ front, s = front ++ dropLeading q s ∧ front.all q = true ∧
      ∀ c ∈ (dropLeading q s).head?, q c = false := by
  refine ⟨s.takeWhile q, (List.takeWhile_append_dropWhile).symm, List.all_takeWhile, ?_⟩
  intro c hc
  have hc : (List.dropWhile q s).head? = some c := hc
  have hq := List.head?_dropWhile_not q s
  rw [hc] at hq
  simpa using hq

/-- What has been dropped is not dropped again. -/
theorem dropLeading_dropLeading (p : Char → Bool) (s : List Char) :
    dropLeading p (dropLeading p s) = dropLeading p s := by
  unfold dropLeading
  induction s with
  | nil => rfl
  | cons c s ih => cases hc : p c <;> simp [hc, ih]

/-- Trailing characters of a kind are dropped as far as they go. -/
theorem dropTrailing_append (ht : t.all q = true) (hs : ∀ c ∈ s.getLast?, q c = false) :
    dropTrailing q (s ++ t) = s := by
  have : dropLeading q (t.reverse ++ s.reverse) = s.reverse := by
    refine dropLeading_append (by rwa [List.all_reverse]) fun c hc => hs c ?_
    rwa [List.head?_reverse] at hc
  unfold dropTrailing
  unfold dropLeading at this
  rw [List.reverse_append, this, List.reverse_reverse]

/-! ### Cutting at a character -/

/-- Cutting at a text of one character is cutting at the character. -/
theorem pieces_singleton (c : Char) (s : List Char) {limit : Nat} (h : s.length < limit) :
    pieces [c] 0 limit s = s.splitOn c := by
  induction s generalizing limit with
  | nil => rfl
  | cons d s ih =>
    rw [List.length_cons] at h
    have hlimit : 0 < limit := by omega
    rw [List.splitOn_cons_eq_if_modifyHead, pieces]
    by_cases hd : d = c
    · subst hd
      have hs : s.length < limit - 1 := by omega
      simp [hlimit, ih hs]
    · have hne := List.splitOn_ne_nil c s
      rw [ih (Nat.lt_of_succ_lt h)]
      generalize s.splitOn c = ps at hne
      cases ps with
      | nil => exact absurd rfl hne
      | cons p ps => simp [Ne.symm hd, hd, consPiece]

/-- The same, for the whole text. -/
theorem splitOn_singleton (c : Char) (s : List Char) : splitOn [c] s = s.splitOn c :=
  pieces_singleton c s (Nat.lt_succ_self _)

/-! ### Characters between texts -/

/-- Texts with a character between them are the first one and the others, each behind it. -/
theorem intercalate_singleton (c : Char) (t : String) (ts : List String) :
    (String.singleton c).intercalate (t :: ts) =
      String.ofList (t.toList ++ ts.flatMap fun u => c :: u.toList) := by
  induction ts generalizing t with
  | nil => simp
  | cons u ts ih =>
    rw [String.intercalate_cons_cons, ih, ← String.toList_inj]
    simp

/-- So it is with blanks. -/
theorem intercalate_blank (t : String) (ts : List String) :
    " ".intercalate (t :: ts) =
      String.ofList (t.toList ++ ts.flatMap fun u => ' ' :: u.toList) :=
  intercalate_singleton ' ' t ts

end Trellis.Text
