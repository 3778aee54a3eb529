import Trellis.Proofs.Text.Cutting
import Trellis.Tree.Header

/-!
# Proofs — Headers — Words

Where the header of a loop is cut, for every text (`loop?_eq_some_iff`, `loop?_eq_none_iff`): at the
first place where the word `in` stands whole, which no character of a word touches on either side.
What stands in front of it and what stands behind lose their white space.
-/

namespace Trellis.Header

open Trellis.Text (isAlnum isBlank dropLeading dropTrailing)

variable {b : Bool} {c : Char} {s x y r t : List Char}

/-! ### Whole words -/

/-- The word `in` stands whole between `x` and `r`; `b` tells whether a character of a word stands
in front of `x`. -/
structure Between (b : Bool) (x r : List Char) : Prop where
  before : (x.getLast?.elim b isAlnum) = false
  behind : endsWord r = true

/-- The word `in` stands whole in `s`, between `x` and `r`. -/
structure Stands (b : Bool) (s x r : List Char) : Prop extends Between b x r where
  whole : s = x ++ 'i' :: 'n' :: r

/-- Whether a word may begin behind a character is told by the character. -/
theorem between_cons : Between b (c :: x) r ↔ Between (isAlnum c) x r := by
  have hlast : ((c :: x).getLast?.elim b isAlnum) = x.getLast?.elim (isAlnum c) isAlnum := by
    rw [List.getLast?_cons]
    cases x.getLast? <;> rfl
  exact ⟨fun ⟨h, h'⟩ => ⟨hlast ▸ h, h'⟩, fun ⟨h, h'⟩ => ⟨hlast ▸ h, h'⟩⟩

/-- The word stands at the front, or behind the first character. -/
theorem stands_cons :
    Stands b (c :: s) x r ↔
      (x = [] ∧ c :: s = 'i' :: 'n' :: r ∧ b = false ∧ endsWord r = true) ∨
        ∃ y, x = c :: y ∧ Stands (isAlnum c) s y r := by
  constructor
  · rintro ⟨hbetween, hwhole⟩
    cases x with
    | nil => exact .inl ⟨rfl, hwhole, hbetween.before, hbetween.behind⟩
    | cons d y =>
      obtain ⟨rfl, rfl⟩ := List.cons.inj hwhole
      exact .inr ⟨y, rfl, between_cons.mp hbetween, rfl⟩
  · rintro (⟨rfl, hwhole, hb, hr⟩ | ⟨y, rfl, hbetween, rfl⟩)
    · exact ⟨⟨hb, hr⟩, hwhole⟩
    · exact ⟨between_cons.mpr hbetween, rfl⟩

/-- Two places of the word that are as far back are one. -/
theorem Stands.unique (h : Stands b s x r) (h' : Stands b s y t) (hlength : x.length = y.length) :
    x = y ∧ r = t := by
  obtain ⟨rfl, hrest⟩ := List.append_inj (h.whole.symm.trans h'.whole) hlength
  exact ⟨rfl, (List.cons.inj (List.cons.inj hrest).2).2⟩

/-! ### The first whole word -/

/-- What is found is the first place of the word; if nothing is, there is none. -/
def Finds (b : Bool) (s : List Char) : Option (List Char × List Char) → Prop
  | some (x, r) => Stands b s x r ∧ ∀ y t, Stands b s y t → x.length ≤ y.length
  | none => ∀ x r, ¬ Stands b s x r

/-- A character in front, at which the word does not stand. -/
theorem Finds.cons {b' : Bool} {o : Option (List Char × List Char)} (h : Finds b' s o)
    (hcons : ∀ x t, Stands b (c :: s) x t → ∃ y, x = c :: y ∧ Stands b' s y t)
    (hback : ∀ y t, Stands b' s y t → Stands b (c :: s) (c :: y) t) :
    Finds b (c :: s) (o.map fun p => (c :: p.1, p.2)) := by
  cases o with
  | none =>
    intro x t hx
    obtain ⟨y, -, hy⟩ := hcons x t hx
    exact h y t hy
  | some p =>
    refine ⟨hback _ _ h.1, fun z t hz => ?_⟩
    obtain ⟨y, rfl, hy⟩ := hcons z t hz
    exact Nat.succ_le_succ (h.2 y t hy)

/-- The cut is where the word is found first. -/
theorem splitAtIn_finds (b : Bool) (s : List Char) : Finds b s (splitAtIn b s) := by
  fun_induction splitAtIn b s with
  | case1 b =>
    intro x r h
    cases x <;> cases h.whole
  | case2 b r h =>
    obtain ⟨hb, hr⟩ : b = false ∧ endsWord r = true := by simpa using h
    exact ⟨⟨⟨hb, hr⟩, rfl⟩, fun _ _ _ => Nat.zero_le _⟩
  | case3 b r h ih =>
    -- the word at the front is touched, so the search goes on behind its first character
    have hne : ¬ (b = false ∧ endsWord r = true) := by simpa using h
    refine ih.cons (fun x t hx => ?_) fun y t hy => stands_cons.mpr (.inr ⟨y, rfl, hy⟩)
    obtain ⟨-, hwhole, hb, ht⟩ | hx := stands_cons.mp hx
    · cases hwhole
      exact absurd ⟨hb, ht⟩ hne
    · exact hx
  | case4 b c s hne ih =>
    refine ih.cons (fun x t hx => ?_) fun y t hy => stands_cons.mpr (.inr ⟨y, rfl, hy⟩)
    obtain ⟨-, hwhole, -⟩ | hx := stands_cons.mp hx
    · obtain ⟨rfl, rfl⟩ := List.cons.inj hwhole
      exact absurd rfl (hne t rfl)
    · exact hx

/-- Only the first place is one that is found, and only where there is none nothing is. -/
theorem Finds.unique {o o' : Option (List Char × List Char)} (h : Finds b s o)
    (h' : Finds b s o') : o = o' := by
  cases o with
  | none =>
    cases o' with
    | none => rfl
    | some q => exact absurd h'.1 (h _ _)
  | some p =>
    cases o' with
    | none => exact absurd h.1 (h' _ _)
    | some q =>
      obtain ⟨hx, hr⟩ := h.1.unique h'.1 (Nat.le_antisymm (h.2 _ _ h'.1) (h'.2 _ _ h.1))
      rw [Prod.ext hx hr]

/-- It is the only one. -/
theorem splitAtIn_eq_iff {o : Option (List Char × List Char)} : splitAtIn b s = o ↔ Finds b s o :=
  ⟨fun h => h ▸ splitAtIn_finds b s, fun h => (splitAtIn_finds b s).unique h⟩

/-! ### White space -/

/-- The code points of white space above ASCII. -/
def wideBlanks : List Nat :=
  [0x85, 0xa0, 0x1680] ++ List.range' 0x2000 11 ++ [0x2028, 0x2029, 0x202f, 0x205f, 0x3000]

/-- White space belongs to no word. -/
theorem isAlnum_of_isBlank (h : isBlank c = true) : isAlnum c = false := by
  by_cases hc : c.toNat < 128
  · have hascii : ∀ n ∈ List.range 128,
        isBlank (Char.ofNat n) = true → isAlnum (Char.ofNat n) = false := by decide +kernel
    have hc := hascii c.toNat (List.mem_range.mpr hc)
    rw [Char.ofNat_toNat] at hc
    exact hc h
  · -- one pass over the ranges: the table is too long to be searched anew for every code point
    have htable : ∀ r ∈ Text.Table.alphanumeric.toList, ∀ n ∈ wideBlanks,
        ¬ (r.1 ≤ n ∧ n ≤ r.2) := by decide +kernel
    have hwide : c.toNat ∈ wideBlanks := by
      simp only [isBlank, Text.isSpace, Bool.or_eq_true, Bool.and_eq_true, decide_eq_true_eq,
        beq_iff_eq] at h
      simp only [wideBlanks, List.mem_append, List.mem_range'_1, List.mem_cons, List.not_mem_nil,
        or_false]
      omega
    rw [isAlnum, if_neg hc, Text.inRanges, ← Array.any_toList, List.any_eq_false]
    intro r hr
    simpa using htable r hr _ hwide

/-- White space at the front moves the places of the word back. -/
theorem stands_blank {w : List Char} (hw : w.all isBlank = true) :
    Stands false (w ++ s) x r ↔ ∃ y, x = w ++ y ∧ Stands false s y r := by
  induction w generalizing x with
  | nil => simp
  | cons c w ih =>
    obtain ⟨hc, hw⟩ : isBlank c = true ∧ w.all isBlank = true := by simpa using hw
    rw [List.cons_append, stands_cons, isAlnum_of_isBlank hc]
    constructor
    · rintro (⟨-, hwhole, -⟩ | ⟨y, rfl, hy⟩)
      · obtain ⟨rfl, -⟩ := List.cons.inj hwhole
        exact absurd hc (by decide)
      · obtain ⟨z, rfl, hz⟩ := (ih hw).mp hy
        exact ⟨z, rfl, hz⟩
    · rintro ⟨z, rfl, hz⟩
      exact .inr ⟨w ++ z, rfl, (ih hw).mpr ⟨z, rfl, hz⟩⟩

/-- The word is found behind white space where it is found without. -/
theorem splitAtIn_blank {w : List Char} (hw : w.all isBlank = true) :
    splitAtIn false (w ++ s) = (splitAtIn false s).map fun p => (w ++ p.1, p.2) := by
  refine splitAtIn_eq_iff.mpr ?_
  have hfinds := splitAtIn_finds false s
  cases h : splitAtIn false s with
  | none =>
    rw [h] at hfinds
    intro x r hx
    obtain ⟨y, -, hy⟩ := (stands_blank hw).mp hx
    exact hfinds y r hy
  | some p =>
    rw [h] at hfinds
    refine ⟨(stands_blank hw).mpr ⟨_, rfl, hfinds.1⟩, fun y t hy => ?_⟩
    obtain ⟨z, rfl, hz⟩ := (stands_blank hw).mp hy
    simpa using hfinds.2 z t hz

/-! ### Headers -/

/-- A header is cut at the first place of the word, and the parts lose their white space. -/
theorem loop?_eq (s : List Char) :
    loop? s = (splitAtIn false s).map fun p =>
      (Text.strip isBlank p.1, dropLeading isBlank p.2) := by
  obtain ⟨w, hs, hw, hhead⟩ := Text.exists_dropLeading isBlank s
  have hcut : splitAtIn false s =
      (splitAtIn false (dropLeading isBlank s)).map fun p => (w ++ p.1, p.2) :=
    (congrArg (splitAtIn false) hs).trans (splitAtIn_blank hw)
  rw [loop?, hcut, Option.map_map]
  refine Option.map_congr fun p hp => ?_
  -- what is in front of the word starts as the text does, which has no white space there
  have hfront : ∀ c ∈ p.1.head?, isBlank c = false := by
    have hwhole := (splitAtIn_eq_iff.mp hp).1.whole
    intro c hc
    refine hhead c ?_
    rw [hwhole, Option.mem_def, List.head?_append, Option.mem_def.mp hc]
    rfl
  simp only [Function.comp_apply, Text.strip, Text.dropLeading_append hw hfront]

/-- **Where a header is cut.** -/
theorem loop?_eq_some_iff {e : List Char} :
    loop? s = some (t, e) ↔ ∃ x r, Stands false s x r ∧
      (∀ y u, Stands false s y u → x.length ≤ y.length) ∧
      t = Text.strip isBlank x ∧ e = dropLeading isBlank r := by
  rw [loop?_eq]
  constructor
  · intro h
    obtain ⟨p, hp, he⟩ := Option.map_eq_some_iff.mp h
    obtain ⟨hstands, hfirst⟩ := splitAtIn_eq_iff.mp hp
    obtain ⟨rfl, rfl⟩ := Prod.mk.inj he
    exact ⟨_, _, hstands, hfirst, rfl, rfl⟩
  · rintro ⟨x, r, hstands, hfirst, rfl, rfl⟩
    have hfinds : Finds false s (some (x, r)) := ⟨hstands, hfirst⟩
    rw [splitAtIn_eq_iff.mpr hfinds]
    rfl

/-- A header is not cut if the word stands whole nowhere. -/
theorem loop?_eq_none_iff : loop? s = none ↔ ∀ x r, ¬ Stands false s x r := by
  rw [loop?_eq, Option.map_eq_none_iff]
  exact splitAtIn_eq_iff

end Trellis.Header
