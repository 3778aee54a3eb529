import Trellis.Proofs.Syntax.Lexicon

/-!
# Proofs — Syntax — Literals

Whole numbers and texts as they are written out.

* `numberLiteral_toDigits`: a whole number in decimal digits is read as that number, if it has no
  more digits than may be read; `numberLiteral_lt` says that numbers with more are never read.
* `unquote_quote`: a text between double quotes, with backslashes and double quotes escaped, is
  read as that text.
-/

namespace Trellis.Decimal

open Trellis.Text (isAsciiDigit decimalValue?)

variable {b n : Nat} {ds : List Nat} {s r : List Char} {first : Bool}

/-! ### Digits -/

/-- A number with digits behind it is below the next number with zeros in their place. -/
theorem foldl_digits_lt (hds : ∀ d ∈ ds, d < b) (m : Nat) :
    ds.foldl (fun n d => n * b + d) m < (m + 1) * b ^ ds.length := by
  induction ds generalizing m with
  | nil => simp
  | cons d ds ih =>
      obtain ⟨hd, hds⟩ := List.forall_mem_cons.mp hds
      have hstep : m * b + d + 1 ≤ (m + 1) * b := by
        rw [Nat.succ_mul]
        omega
      calc ds.foldl (fun n d => n * b + d) (m * b + d)
          < (m * b + d + 1) * b ^ ds.length := ih hds _
        _ ≤ (m + 1) * b * b ^ ds.length := Nat.mul_le_mul_right _ hstep
        _ = (m + 1) * b ^ (d :: ds).length := by
            rw [List.length_cons, Nat.pow_succ', Nat.mul_assoc]

/-- The value of digits is below the power of the base that has one digit more. -/
theorem ofDigits_lt (hds : ∀ d ∈ ds, d < b) : ofDigits b ds < b ^ ds.length := by
  have := foldl_digits_lt hds 0
  rwa [Nat.zero_add, Nat.one_mul] at this

/-- Digits that are read are below the base. -/
theorem digitRun?_lt (h : digitRun? b first s = some (ds, r)) : ∀ d ∈ ds, d < b := by
  fun_induction digitRun? b first s generalizing ds r with
  | case1 | case3 | case6 => cases h
  | case2 | case7 =>
      obtain ⟨rfl, rfl⟩ := Prod.mk.inj (Option.some.inj h)
      nofun
  | case4 _ _ _ ih => exact ih h
  | case5 first c s hc d hd ih =>
      obtain ⟨q, hq, e⟩ := Option.map_eq_some_iff.mp h
      obtain ⟨rfl, rfl⟩ := Prod.mk.inj e
      refine List.forall_mem_cons.mpr ⟨?_, ih hq⟩
      simpa using (Option.filter_eq_some_iff.mp hd).2

/-- A number that is read in a base without a power of two has no more digits than may be read. -/
theorem magnitude?_lt {m : Int} (hb : isPowerBase b = false) (hpos : 0 < b)
    (h : magnitude? b s = .value m) : ∃ n : Nat, m = n ∧ n < b ^ digitLimit := by
  unfold magnitude? at h
  split at h
  · cases h
  · next ds rest hrun =>
    split at h
    · cases h
    · next hlimit =>
      split at h
      · cases h
        simp only [hb, Bool.not_false, Bool.true_and, decide_eq_true_eq, Nat.not_lt] at hlimit
        exact ⟨_, rfl, Nat.lt_of_lt_of_le (ofDigits_lt (digitRun?_lt hrun))
          (Nat.pow_le_pow_right hpos hlimit)⟩
      · cases h

/-- A prefix names no base of ten. -/
theorem namedBase?_ne_ten (s : List Char) : namedBase? s ≠ some 10 := by
  unfold namedBase?
  split
  · repeat' split
    all_goals simp
  · simp

/-- Whole numbers that are read in base ten are as small as the limit on digits says. -/
theorem wholeNumber?_lt {m : Int} (h : wholeNumber? 10 s = .value m) :
    m.toNat < 10 ^ digitLimit := by
  simp only [wholeNumber?, if_neg (namedBase?_ne_ten _), Nat.reduceEqDiff, if_false] at h
  split at h
  · next m' hm =>
    obtain ⟨n, rfl, hlt⟩ := magnitude?_lt rfl (by decide) hm
    cases h
    split
    · refine Nat.lt_of_le_of_lt ?_ hlt
      omega
    · simpa using hlt
  · next hne =>
    exact absurd h (hne m)

/-! ### Decimal numerals -/

/-- What holds of the ten digits holds of a digit. -/
theorem of_isAsciiDigit {P : Char → Prop} (h : ∀ n < 10, P (Char.ofNat (48 + n))) {c : Char}
    (hc : isAsciiDigit c = true) : P c := by
  simp only [isAsciiDigit, Bool.and_eq_true, decide_eq_true_eq, Char.le_def,
    UInt32.le_iff_toNat_le] at hc
  have hn : 48 + (c.toNat - 48) = c.toNat := Nat.add_sub_cancel' hc.1
  have hlt : c.toNat - 48 < 10 := Nat.lt_of_le_of_lt (Nat.sub_le_sub_right hc.2 48) (by decide)
  have := h _ hlt
  rwa [hn, Char.ofNat_toNat] at this

/-- A numeral is at least one digit. -/
structure IsNumeral (s : List Char) : Prop where
  ne_nil : s ≠ []
  digits : ∀ c ∈ s, isAsciiDigit c = true

/-- The digits of a number are a numeral. -/
theorem isNumeral_toDigits (n : Nat) : IsNumeral (Nat.toDigits 10 n) where
  ne_nil := Nat.toDigits_ne_nil
  digits c hc := by
    have := Nat.isDigit_of_mem_toDigits (by decide) (by decide) hc
    simpa [isAsciiDigit, Char.isDigit, Char.le_def] using this

/-- Digits of ASCII stand for themselves. -/
theorem counterparts_of_digits (hs : ∀ c ∈ s, isAsciiDigit c = true) : counterparts s = s := by
  induction s with
  | nil => rfl
  | cons c s ih =>
      obtain ⟨hc, hs⟩ := List.forall_mem_cons.mp hs
      have : counterpart? c = some c :=
        of_isAsciiDigit (P := fun c => counterpart? c = some c) (by decide) hc
      rw [counterparts, this, ih hs]

/-- A text of digits is read to its end. -/
theorem digitRun?_of_digits (hs : ∀ c ∈ s, isAsciiDigit c = true) (h : first = true → s ≠ []) :
    digitRun? 10 first s = some (s.map fun c => c.toNat - '0'.toNat, []) := by
  induction s generalizing first with
  | nil =>
      cases first with
      | false => rfl
      | true => exact absurd rfl (h rfl)
  | cons c s ih =>
      obtain ⟨hc, hs⟩ := List.forall_mem_cons.mp hs
      have hne : c ≠ '_' := of_isAsciiDigit (P := fun c => c ≠ '_') (by decide) hc
      have hin : digitIn? 10 c = some (c.toNat - '0'.toNat) :=
        of_isAsciiDigit (P := fun c => digitIn? 10 c = some (c.toNat - '0'.toNat)) (by decide) hc
      have hrun : digitRun? 10 false s = _ := ih hs (by simp)
      rw [digitRun?, if_neg hne, hin]
      simp [hrun]

/-- The value of digits is that of the characters that they are written with. -/
theorem ofDigits_map (s : List Char) :
    ofDigits 10 (s.map fun c => c.toNat - '0'.toNat) = Nat.ofDigitChars 10 s 0 := by
  rw [ofDigits, Nat.ofDigitChars_eq_foldl, List.foldl_map]
  congr 1
  funext m c
  rw [Nat.mul_comm]

/-- A numeral is read as its number, unless it has more digits than may be read. -/
theorem wholeNumber?_numeral (h : IsNumeral s) : wholeNumber? 10 s =
    if digitLimit < s.length then .tooLong s.length else .value (Nat.ofDigitChars 10 s 0) := by
  -- in a numeral there is nothing to strip, no sign and no base
  have hpad : s.dropWhile isPadding = s := by
    cases s with
    | nil => rfl
    | cons c s =>
        have hc := h.digits c List.mem_cons_self
        rw [List.dropWhile_cons_of_neg]
        exact of_isAsciiDigit (P := fun c => ¬isPadding c = true) (by decide) hc
  have hsign : splitSign s = (false, s) := by
    unfold splitSign
    split
    · exact absurd (h.digits '-' List.mem_cons_self) (by decide)
    · exact absurd (h.digits '+' List.mem_cons_self) (by decide)
    · rfl
  have hrun : digitRun? 10 true s = _ := digitRun?_of_digits h.digits fun _ => h.ne_nil
  have hpower : isPowerBase 10 = false := rfl
  rw [← ofDigits_map]
  simp only [wholeNumber?, counterparts_of_digits h.digits, hpad, hsign, namedBase?_ne_ten,
    magnitude?, hrun, hpower, List.length_map, List.all_nil, Nat.reduceEqDiff, if_false, if_true,
    Bool.not_false, Bool.true_and, decide_eq_true_eq]
  split
  · next hm =>
    rw [hm]
    rfl
  · rfl

/-- A numeral of no more digits than may be read is read as its number. -/
theorem wholeNumber?_of_isNumeral (h : IsNumeral s) (hlimit : s.length ≤ digitLimit) :
    wholeNumber? 10 s = .value (Nat.ofDigitChars 10 s 0) := by
  rw [wholeNumber?_numeral h, if_neg (Nat.not_lt.mpr hlimit)]

end Trellis.Decimal

namespace Trellis.Expr

open Trellis.Decimal (IsNumeral digitLimit)
open Trellis.Text (isAsciiDigit isDecimal)

namespace Token

variable {t : List Char} {n : Nat}

/-! ### Numbers -/

/-- Whole numbers in expressions are as small as the limit on digits says. -/
theorem numberLiteral_lt (h : numberLiteral t = .whole n) : n < 10 ^ digitLimit := by
  unfold numberLiteral at h
  split at h
  · split at h <;> cases h
  · split at h
    · next m hm =>
      cases h
      exact Decimal.wholeNumber?_lt hm
    · cases h
    · cases h

/-- A numeral is no floating-point number. -/
theorem isFloating_of_isNumeral (h : IsNumeral t) : isFloating t = false := by
  rw [isFloating, List.any_eq_false]
  intro c hc
  exact Decimal.of_isAsciiDigit
    (P := fun c => ¬(decide (c = '.') || decide (c = 'e') || decide (c = 'E')) = true)
    (by decide) (h.digits c hc)

/-- The digits of a number are read as the number, if they are not too many. -/
theorem numberLiteral_toDigits (h : n < 10 ^ digitLimit) :
    numberLiteral (Nat.toDigits 10 n) = .whole n := by
  have hn := Decimal.isNumeral_toDigits n
  have hlimit := (Nat.length_toDigits_le_iff (b := 10) (by decide) (by decide)).mpr h
  rw [numberLiteral, isFloating_of_isNumeral hn, if_neg Bool.false_ne_true,
    Decimal.wholeNumber?_of_isNumeral hn hlimit, Nat.ofDigitChars_ten_toDigits]
  rfl

/-- A numeral is taken as a number. -/
theorem number_of_isNumeral (h : IsNumeral t) : number.Takes t [] := by
  have hdec : ∀ c ∈ t, isDecimal c = true := fun c hc =>
    Decimal.of_isAsciiDigit (P := fun c => isDecimal c = true) (by decide +kernel) (h.digits c hc)
  have hpoint (r : List Char) : t ≠ '.' :: r := by
    rintro rfl
    exact absurd (h.digits '.' List.mem_cons_self) (by decide)
  obtain ⟨htake, hdrop⟩ := span_append (r := []) hdec (by simp)
  have hdigits : digits t = some (t, []) := by
    obtain ⟨c, t, rfl⟩ := List.exists_cons_of_ne_nil h.ne_nil
    rw [List.append_nil] at htake hdrop
    rw [digits, hdrop, htake]
  rw [Pattern.Takes, List.append_nil, number, mantissa_of_ne hpoint, hdigits, Option.map_some,
    places_of_ne (r := []) fun _ => (List.cons_ne_nil _ _).symm]
  simp [exponent]

/-! ### Texts -/

/-- A character as it is written between double quotes. -/
def escaped (c : Char) : List Char := if c = '\\' || c = '"' then ['\\', c] else [c]

/-- A text between double quotes. -/
def quote (s : String) : List Char := '"' :: s.toList.flatMap escaped ++ ['"']

/-- A backslash or a quote is written with a backslash in front, everything else as it is. -/
theorem escaped_cases (c : Char) :
    (escaped c = ['\\', c] ∧ (c = '\\' ∨ c = '"')) ∨ (escaped c = [c] ∧ c ≠ '\\' ∧ c ≠ '"') := by
  unfold escaped
  split
  · next h => exact .inl ⟨rfl, by simpa using h⟩
  · next h => exact .inr ⟨rfl, by simpa using h⟩

/-- Written so, no quote ends the text. -/
theorem inside_flatMap_escaped (s : List Char) : Inside '"' (s.flatMap escaped) := by
  induction s with
  | nil => exact .nil
  | cons c s ih =>
      rw [List.flatMap_cons]
      rcases escaped_cases c with ⟨h, rfl | rfl⟩ | ⟨h, hslash, hquote⟩ <;> rw [h]
      · exact .escape (by decide) ih
      · exact .escape (by decide) ih
      · exact .plain hquote hslash ih

/-- What is written so is read back. -/
theorem unquoteBody_flatMap_escaped (s : List Char) : unquoteBody (s.flatMap escaped) = s := by
  induction s with
  | nil => rfl
  | cons c s ih =>
      rw [List.flatMap_cons]
      rcases escaped_cases c with ⟨h, rfl | rfl⟩ | ⟨h, hslash, -⟩ <;> rw [h]
      · simp [unquoteBody, ih, unescaped]
      · simp [unquoteBody, ih, unescaped]
      · rw [List.singleton_append, unquoteBody, ih]
        · exact fun e => absurd e hslash
        · exact fun _ _ e => absurd e hslash

/-- A text between double quotes is taken as a text. -/
theorem quoted_quote (s : String) : quoted.Takes (quote s) [] := by
  have h : textIn '"' (quote s ++ []) = some (quote s, []) :=
    (textIn_eq_some (by decide)).mpr ⟨_, inside_flatMap_escaped s.toList, rfl, rfl⟩
  rw [Pattern.Takes, quoted, oneOf, h]

/-- A text that is quoted is read back without its quotes. -/
theorem unquote_quote (s : String) : unquote (quote s) = s := by
  rw [unquote, quote, List.cons_append, List.drop_one, List.tail_cons, List.dropLast_concat,
    unquoteBody_flatMap_escaped, String.ofList_toList]

end Token
end Trellis.Expr
