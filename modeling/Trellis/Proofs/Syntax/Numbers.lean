import Trellis.Proofs.Syntax.Literals
import Trellis.Proofs.Syntax.Separation

/-!
# Proofs — Syntax — Numbers

Which numbers of expressions can be read.  The grammar takes more characters for digits than have a
value, as its tables are those of a later Unicode, and it takes digits without end, while a whole
number is read up to a limit.

* `counterpart?_of_isDecimal`: a digit counts as the ASCII digit of its value.
* `floatingPoint?_foreign`, `wholeNumber?_foreign`: a text with a character that counts as none is
  no number.
* `Token.numberLiteral_eq_unreadable`: a number that the grammar takes can be read if and only if it
  is `Token.Readable`.
-/

namespace Trellis.Decimal

open Trellis.Text (isAsciiDigit isDecimal isSpace decimalValue? zeroOf? strip)

variable {b : Nat} {c : Char} {ds : List Nat} {s r : List Char} {after first negative : Bool}

/-! ### Counterparts -/

/-- The ten digits are digits of ASCII. -/
theorem isAsciiDigit_ofNat : ∀ d < 10, isAsciiDigit (Char.ofNat ('0'.toNat + d)) = true := by
  decide

/-- In ASCII, the digits are the only decimal characters. -/
theorem isAsciiDigit_of_isDecimal (h : isDecimal c = true) (hc : c.toNat < 127) :
    isAsciiDigit c = true := by
  by_contra hdigit
  have hlater : ∀ z ∈ Text.Table.laterZeros, 127 ≤ z := by decide
  have hvalue : decimalValue? c = none := by
    simp [decimalValue?, hdigit, show c.toNat < 128 by omega]
  simp only [isDecimal, hvalue, Option.isSome_none, Bool.false_or] at h
  obtain ⟨z, hz⟩ := Option.isSome_iff_exists.mp h
  have hle := Array.find?_some hz
  simp only [Bool.and_eq_true, decide_eq_true_eq] at hle
  have := hlater z (Array.mem_of_find?_eq_some hz)
  omega

/-- A digit counts as the ASCII digit of its value, if it has one. -/
theorem counterpart?_of_isDecimal (h : isDecimal c = true) :
    counterpart? c = (decimalValue? c).map fun d => Char.ofNat ('0'.toNat + d) := by
  by_cases hc : c.toNat < 127
  · exact of_isAsciiDigit
      (P := fun c => counterpart? c = (decimalValue? c).map fun d => Char.ofNat ('0'.toNat + d))
      (by decide) (isAsciiDigit_of_isDecimal h hc)
  · have hspace : isSpace c = false := by
      refine Bool.eq_false_iff.mpr fun hs => ?_
      have := Expr.isDecimal_of_isBreak (c := c) (by simp [Expr.isBreak, hs])
      rw [h] at this
      cases this
    simp [counterpart?, hc, hspace]

/-- A character that counts as none shows. -/
theorem mem_counterparts (hc : c ∈ s) (h : counterpart? c = none) : '?' ∈ counterparts s := by
  induction s with
  | nil => cases hc
  | cons a s ih =>
      rw [counterparts]
      cases ha : counterpart? a with
      | none => exact List.mem_singleton_self _
      | some d =>
          refine List.mem_cons_of_mem _ (ih ?_)
          rcases List.mem_cons.mp hc with rfl | hc
          · rw [ha] at h
            cases h
          · exact hc

/-! ### Characters that count as none -/

/-- A run of digits does not go past such a character. -/
theorem digitRun?_foreign (h : digitRun? b first s = some (ds, r)) (hs : '?' ∈ s) : '?' ∈ r := by
  fun_induction digitRun? b first s generalizing ds r with
  | case1 | case3 | case6 => cases h
  | case2 => cases hs
  | case4 _ s _ ih => exact ih h (List.mem_of_ne_of_mem (by decide) hs)
  | case5 first c s hc d hd ih =>
      obtain ⟨q, hq, e⟩ := Option.map_eq_some_iff.mp h
      obtain ⟨rfl, rfl⟩ := Prod.mk.inj e
      rcases List.mem_cons.mp hs with rfl | hs
      · cases hd
      · exact ih hq hs
  | case7 =>
      obtain ⟨rfl, rfl⟩ := Prod.mk.inj (Option.some.inj h)
      exact hs

/-- A number with a foreign character is not read. -/
theorem magnitude?_foreign (hs : '?' ∈ s) (n : Int) : magnitude? b s ≠ .value n := by
  intro h
  unfold magnitude? at h
  split at h
  · cases h
  · next ds rest hrun =>
    split at h
    · cases h
    · split at h
      · next hpad =>
        have := List.all_eq_true.mp hpad _ (digitRun?_foreign hrun hs)
        cases this
      · cases h

/-- Such a character is not lost with a sign. -/
theorem splitSign_foreign (hs : '?' ∈ s) : '?' ∈ (splitSign s).2 := by
  unfold splitSign
  split
  · exact List.mem_of_ne_of_mem (by decide) hs
  · exact List.mem_of_ne_of_mem (by decide) hs
  · exact hs

/-- Nor is it lost with white space in front. -/
theorem dropPadding_foreign (hs : '?' ∈ s) : '?' ∈ s.dropWhile isPadding := by
  induction s with
  | nil => cases hs
  | cons c s ih =>
      by_cases hc : isPadding c = true
      · rw [List.dropWhile_cons_of_pos hc]
        refine ih (List.mem_of_ne_of_mem ?_ hs)
        rintro rfl
        cases hc
      · rwa [List.dropWhile_cons_of_neg hc]

/-- Nor with white space on either side. -/
theorem strip_foreign (hs : '?' ∈ s) : '?' ∈ strip isPadding s := by
  rw [strip, Text.dropTrailing, Text.dropLeading, List.mem_reverse]
  exact dropPadding_foreign (List.mem_reverse.mpr (dropPadding_foreign hs))

/-- A text with a character that counts as none is no whole number. -/
theorem wholeNumber?_foreign (hs : '?' ∈ counterparts s) (n : Int) :
    wholeNumber? 10 s ≠ .value n := by
  have hmem := splitSign_foreign (dropPadding_foreign hs)
  intro h
  simp only [wholeNumber?, if_neg (namedBase?_ne_ten _), Nat.reduceEqDiff, if_false] at h
  split at h
  · next m hm => exact magnitude?_foreign hmem m hm
  · next hne => exact hne n h

/-- It is left behind the digits. -/
theorem spanDigits_foreign (h : spanDigits after s = some (ds, r)) (hs : '?' ∈ s) : '?' ∈ r := by
  fun_induction spanDigits after s generalizing ds r with
  | case1 => cases hs
  | case2 after s _ ih => exact ih h (List.mem_of_ne_of_mem (by decide) hs)
  | case3 => cases h
  | case4 after c s _ d hd ih =>
      obtain ⟨q, hq, e⟩ := Option.map_eq_some_iff.mp h
      obtain ⟨rfl, rfl⟩ := Prod.mk.inj e
      rcases List.mem_cons.mp hs with rfl | hs
      · cases hd
      · exact ih hq hs
  | case5 =>
      obtain ⟨rfl, rfl⟩ := Prod.mk.inj (Option.some.inj h)
      exact hs

/-- It stands in no exponent. -/
theorem exponent?_foreign (hs : '?' ∈ s) : exponent? s = none := by
  cases s with
  | nil => cases hs
  | cons c s =>
      rw [exponent?]
      split
      · next hc =>
        have hs' : '?' ∈ s := by
          refine List.mem_of_ne_of_mem ?_ hs
          rintro rfl
          cases hc
        have hmem := splitSign_foreign hs'
        split
        next sign u hsign =>
        rw [hsign] at hmem
        split
        · next ds hds => cases spanDigits_foreign hds hmem
        · rfl
      · rfl

/-- It stands in no decimal number. -/
theorem decimal?_foreign (hs : '?' ∈ s) : decimal? negative s = none := by
  unfold decimal?
  split
  · rfl
  · next whole r hspan =>
    have hr : '?' ∈ r := List.mem_of_ne_of_mem (by decide) (spanDigits_foreign hspan hs)
    split
    · rfl
    · next places r' hspan' =>
      rw [exponent?_foreign (spanDigits_foreign hspan' hr)]
      simp
  · next whole r _ hspan =>
    rw [exponent?_foreign (spanDigits_foreign hspan hs)]
    simp

/-- A text with a character that counts as none is no floating-point number. -/
theorem floatingPoint?_foreign (hs : '?' ∈ counterparts s) : floatingPoint? s = none := by
  have hmem := splitSign_foreign (strip_foreign hs)
  -- The names of values that are not finite have no question mark in them.
  have hname (name : String) (h : '?' ∉ name.toList) :
      String.ofList ((splitSign (strip isPadding (counterparts s))).2.map Char.toLower) ≠ name := by
    rintro rfl
    refine h ?_
    rw [String.toList_ofList]
    exact List.mem_map.mpr ⟨'?', hmem, rfl⟩
  simp only [floatingPoint?, hname "inf" (by decide), hname "infinity" (by decide),
    hname "nan" (by decide), decide_false, Bool.or_self, Bool.false_eq_true, if_false]
  exact decimal?_foreign hmem

/-! ### Decimals -/

/-- Without a sign in front, nothing is split off. -/
theorem splitSign_of_head (h : ∀ c ∈ s.head?, c ≠ '-' ∧ c ≠ '+') : splitSign s = (false, s) := by
  unfold splitSign
  split
  · exact absurd rfl (h '-' rfl).1
  · exact absurd rfl (h '+' rfl).2
  · rfl

/-- A run of digits ends where neither a digit nor an underscore follows. -/
theorem spanDigits_run (after : Bool) (hs : ∀ c ∈ s, isAsciiDigit c = true)
    (hr : ∀ c ∈ r.head?, c ≠ '_' ∧ decimalValue? c = none) :
    ∃ ds : List Nat, ds.length = s.length ∧ spanDigits after (s ++ r) = some (ds, r) := by
  induction s generalizing after with
  | nil =>
      refine ⟨[], rfl, ?_⟩
      cases r with
      | nil => rfl
      | cons c r =>
          obtain ⟨hne, hvalue⟩ := hr c rfl
          rw [List.nil_append, spanDigits, hvalue]
          exact fun e => absurd e hne
  | cons c s ih =>
      obtain ⟨hc, hs⟩ := List.forall_mem_cons.mp hs
      obtain ⟨ds, hlen, hspan⟩ := ih true hs
      have hne : c ≠ '_' := of_isAsciiDigit (P := fun c => c ≠ '_') (by decide) hc
      refine ⟨(c.toNat - '0'.toNat) :: ds, by simp [hlen], ?_⟩
      rw [List.cons_append, spanDigits, show decimalValue? c = some _ from if_pos hc, hspan]
      · rfl
      · exact fun e => absurd e hne

/-- Digits without a point are a number if an exponent, or nothing, stands behind them. -/
theorem isSome_decimal?_whole (h : spanDigits false s = some (ds, r)) (hr : ∀ u, r ≠ '.' :: u)
    (hds : ds.isEmpty = false) : (decimal? negative s).isSome = (exponent? r).isSome := by
  unfold decimal?
  split
  · next hn => rw [hn] at h; cases h
  · next hs =>
    rw [hs] at h
    cases h
    exact absurd rfl (hr _)
  · next hs =>
    rw [hs] at h
    cases h
    simp [hds]

/-- So are digits around a point, of which there may be none on one side. -/
theorem isSome_decimal?_point {ds' : List Nat} {r' : List Char}
    (h : spanDigits false s = some (ds, '.' :: r)) (h' : spanDigits false r = some (ds', r'))
    (hds : (ds.isEmpty && ds'.isEmpty) = false) :
    (decimal? negative s).isSome = (exponent? r').isSome := by
  unfold decimal?
  rw [h]
  simp [h', hds]

end Trellis.Decimal

namespace Trellis.Expr.Token

open Trellis.Decimal
open Trellis.Text (isAsciiDigit isDecimal decimalValue? strip)

variable {c : Char} {t r m x ds : List Char} {negative : Bool}

/-- All digits in the text have a value. -/
def Valued (t : List Char) : Prop := ∀ c ∈ t, isDecimal c = true → (decimalValue? c).isSome = true

/-- A number that can be read: its digits have a value, and it has no more of them than may be read
if it is a whole number. -/
structure Readable (t : List Char) : Prop where
  valued : Valued t
  short : isFloating t = false → t.length ≤ digitLimit

/-- All digits of a text have values if those of its parts do. -/
theorem valued_append : Valued (t ++ r) ↔ Valued t ∧ Valued r := List.forall_mem_append

/-! ### Numbers in ASCII -/

/-- A character of numbers in ASCII. -/
def isNumeric (c : Char) : Bool := isAsciiDigit c || ['.', 'e', 'E', '+', '-'].contains c

/-- What numbers are written with are digits, points, exponents and signs. -/
theorem isNumeric_cases (h : isNumeric c = true) :
    isAsciiDigit c = true ∨ c ∈ ['.', 'e', 'E', '+', '-'] := by
  simpa only [isNumeric, Bool.or_eq_true, List.contains_iff_mem] using h

/-- What holds of these characters holds of all that numbers are written with. -/
theorem of_isNumeric {P : Char → Prop} (hd : ∀ n < 10, P (Char.ofNat (48 + n)))
    (hs : ∀ c ∈ ['.', 'e', 'E', '+', '-'], P c) (h : isNumeric c = true) : P c :=
  (isNumeric_cases h).elim (of_isAsciiDigit hd) (hs c)

/-- Digits with a value count as ASCII digits. -/
theorem counterparts_digits (hd : Decimals ds) (hv : Valued ds) (r : List Char) :
    ∃ u, u.length = ds.length ∧ (∀ c ∈ u, isAsciiDigit c = true) ∧
      counterparts (ds ++ r) = u ++ counterparts r := by
  induction ds with
  | nil => exact ⟨[], rfl, nofun, rfl⟩
  | cons c ds ih =>
      obtain ⟨hc, hds⟩ := List.forall_mem_cons.mp hd
      obtain ⟨hvc, hvs⟩ := List.forall_mem_cons.mp hv
      obtain ⟨u, hlen, hu, he⟩ := ih hds hvs
      obtain ⟨n, hn⟩ := Option.isSome_iff_exists.mp (hvc hc)
      refine ⟨Char.ofNat ('0'.toNat + n) :: u, by simp [hlen], List.forall_mem_cons.mpr
        ⟨isAsciiDigit_ofNat n (Text.decimalValue?_lt hn), hu⟩, ?_⟩
      rw [List.cons_append, counterparts, counterpart?_of_isDecimal hc, hn, he]
      rfl

/-- The counterpart of digits begins with a digit of ASCII. -/
theorem head_counterparts (hd : Digits ds) (hv : Valued ds) (r : List Char) :
    ∀ c ∈ (counterparts (ds ++ r)).head?, isAsciiDigit c = true := by
  obtain ⟨u, hlen, hu, he⟩ := counterparts_digits hd.2 hv r
  rw [he]
  cases u with
  | nil => exact absurd (List.eq_nil_of_length_eq_zero hlen.symm) hd.1
  | cons c u =>
      rintro a ⟨⟩
      exact hu c List.mem_cons_self

/-- A run of digits with a value. -/
theorem spanDigits_counterparts (hd : Decimals ds) (hv : Valued ds)
    (hr : ∀ c ∈ (counterparts r).head?, c ≠ '_' ∧ decimalValue? c = none) :
    ∃ ns : List Nat, ns.length = ds.length ∧
      spanDigits false (counterparts (ds ++ r)) = some (ns, counterparts r) := by
  obtain ⟨u, hlen, hu, he⟩ := counterparts_digits hd hv r
  obtain ⟨ns, hns, hspan⟩ := spanDigits_run false hu hr
  exact ⟨ns, hns.trans hlen, by rw [he, hspan]⟩

/-- Digits are not empty, and neither are their values. -/
theorem isEmpty_of_digits {ns : List Nat} (hd : Digits ds) (h : ns.length = ds.length) :
    ns.isEmpty = false := by
  have := List.length_pos_iff.mpr hd.1
  rw [List.isEmpty_eq_false_iff, ← List.length_pos_iff]
  omega

/-- An exponent that is matched is read. -/
theorem isSome_exponent? (hx : Exponent x) (hv : Valued x) :
    (exponent? (counterparts x)).isSome = true := by
  cases hx with
  | absent => rfl
  | @present c sign ds hc hs hd =>
      rw [List.cons_append] at hv
      obtain ⟨-, hv⟩ := List.forall_mem_cons.mp hv
      obtain ⟨-, hvd⟩ := valued_append.mp hv
      obtain ⟨ns, hlen, hspan⟩ := spanDigits_counterparts (r := []) hd.2 hvd nofun
      rw [List.append_nil] at hspan
      have hne := isEmpty_of_digits hd hlen
      have hsign : ∃ b, splitSign (counterparts (sign ++ ds)) = (b, counterparts ds) := by
        rcases hs with rfl | rfl | rfl
        · refine ⟨false, splitSign_of_head ?_⟩
          rintro a ha
          exact of_isAsciiDigit (P := fun a => a ≠ '-' ∧ a ≠ '+') (by decide)
            (head_counterparts hd hvd [] a (by simpa using ha))
        · exact ⟨false, rfl⟩
        · exact ⟨true, rfl⟩
      obtain ⟨b, hb⟩ := hsign
      have hcons : counterparts (c :: sign ++ ds) = c :: counterparts (sign ++ ds) := by
        rcases hc with rfl | rfl <;> rfl
      rw [hcons, exponent?, if_pos (by simpa using hc), hb]
      simp only [hspan, counterparts, hne]
      rfl

/-- An exponent goes on with no run of digits. -/
theorem exponent_stops (hx : Exponent x) :
    ∀ c ∈ (counterparts x).head?, c ≠ '_' ∧ decimalValue? c = none := by
  cases hx with
  | absent => nofun
  | present hc _ _ =>
      rcases hc with rfl | rfl <;> rintro a ⟨⟩ <;> exact ⟨by decide, by decide⟩

/-- An exponent begins with no point. -/
theorem exponent_ne_point (hx : Exponent x) (u : List Char) : counterparts x ≠ '.' :: u := by
  cases hx with
  | absent => nofun
  | present hc _ _ => rcases hc with rfl | rfl <;> nofun

/-- A mantissa and an exponent that are matched are read. -/
theorem isSome_decimal? (hm : Mantissa m) (hx : Exponent x) (hv : Valued (m ++ x)) :
    (decimal? negative (counterparts (m ++ x))).isSome = true := by
  obtain ⟨hvm, hvx⟩ := valued_append.mp hv
  have he := isSome_exponent? hx hvx
  have hstop := exponent_stops hx
  cases hm with
  | @fraction ds hd =>
      obtain ⟨ns, hlen, hspan⟩ := spanDigits_counterparts hd.2 (List.forall_mem_cons.mp hvm).2
        hstop
      have hwhole : spanDigits false (counterparts ('.' :: ds ++ x)) =
          some ([], '.' :: counterparts (ds ++ x)) := rfl
      rwa [isSome_decimal?_point hwhole hspan (by simp [isEmpty_of_digits hd hlen])]
  | whole hd =>
      obtain ⟨ns, hlen, hspan⟩ := spanDigits_counterparts hd.2 hvm hstop
      rwa [isSome_decimal?_whole hspan (exponent_ne_point hx) (isEmpty_of_digits hd hlen)]
  | @both ds ds' hd hd' =>
      obtain ⟨hvd, hvd'⟩ := valued_append.mp hvm
      obtain ⟨ns, hlen, hspan⟩ := spanDigits_counterparts (r := '.' :: ds' ++ x) hd.2 hvd
        (by rintro a ⟨⟩; exact ⟨by decide, by decide⟩)
      obtain ⟨ns', -, hspan'⟩ := spanDigits_counterparts hd' (List.forall_mem_cons.mp hvd').2
        hstop
      rw [← List.append_assoc] at hspan
      rwa [isSome_decimal?_point hspan hspan' (by simp [isEmpty_of_digits hd hlen])]

/-! ### Numbers that can be read -/

/-- A mantissa is written with digits and a point. -/
theorem Mantissa.chars (hm : Mantissa m) : ∀ c ∈ m, isDecimal c = true ∨ c = '.' := by
  cases hm with
  | fraction hd => exact List.forall_mem_cons.mpr ⟨.inr rfl, fun c hc => .inl (hd.2 c hc)⟩
  | whole hd => exact fun c hc => .inl (hd.2 c hc)
  | both hd hd' =>
      exact List.forall_mem_append.mpr ⟨fun c hc => .inl (hd.2 c hc),
        List.forall_mem_cons.mpr ⟨.inr rfl, fun c hc => .inl (hd' c hc)⟩⟩

/-- An exponent is written with digits, a letter and a sign. -/
theorem Exponent.chars (hx : Exponent x) :
    ∀ c ∈ x, isDecimal c = true ∨ c ∈ ['e', 'E', '+', '-'] := by
  cases hx with
  | absent => nofun
  | present hc hs hd =>
      refine List.forall_mem_append.mpr
        ⟨List.forall_mem_cons.mpr ⟨?_, ?_⟩, fun c hc => .inl (hd.2 c hc)⟩
      · rcases hc with rfl | rfl <;> exact .inr (by decide)
      · rcases hs with rfl | rfl | rfl
        · nofun
        · exact fun c hc => .inr (by simp_all)
        · exact fun c hc => .inr (by simp_all)

/-- A number is written with the characters of both. -/
theorem number_chars (hm : Mantissa m) (hx : Exponent x) :
    ∀ c ∈ m ++ x, isDecimal c = true ∨ c ∈ ['.', 'e', 'E', '+', '-'] := by
  refine List.forall_mem_append.mpr ⟨fun c hc => ?_, fun c hc => ?_⟩
  · exact (hm.chars c hc).imp_right (by rintro rfl; decide)
  · exact (hx.chars c hc).imp_right (List.mem_cons_of_mem _)

/-- All characters of a number count as numeric ones. -/
theorem isNumeric_counterparts (ht : ∀ c ∈ t, isDecimal c = true ∨ c ∈ ['.', 'e', 'E', '+', '-'])
    (hv : Valued t) : ∀ c ∈ counterparts t, isNumeric c = true := by
  induction t with
  | nil => nofun
  | cons c t ih =>
      obtain ⟨hc, ht⟩ := List.forall_mem_cons.mp ht
      obtain ⟨hvc, hvt⟩ := List.forall_mem_cons.mp hv
      have hcount : ∃ d, counterpart? c = some d ∧ isNumeric d = true := by
        rcases hc with hc | hc
        · obtain ⟨n, hn⟩ := Option.isSome_iff_exists.mp (hvc hc)
          refine ⟨_, by rw [counterpart?_of_isDecimal hc, hn]; rfl, ?_⟩
          rw [isNumeric, isAsciiDigit_ofNat n (Text.decimalValue?_lt hn), Bool.true_or]
        · have hself : ∀ c ∈ ['.', 'e', 'E', '+', '-'], counterpart? c = some c ∧
              isNumeric c = true := by decide
          exact ⟨c, hself c hc⟩
      obtain ⟨d, hd, hnum⟩ := hcount
      rw [counterparts, hd]
      exact List.forall_mem_cons.mpr ⟨hnum, ih ht hvt⟩

/-- There is no white space to lose in a number. -/
theorem strip_numeric (ht : ∀ c ∈ t, isNumeric c = true) : strip isPadding t = t := by
  have hpad : ∀ c ∈ t, ¬isPadding c = true := fun c hc =>
    of_isNumeric (P := fun c => ¬isPadding c = true) (by decide) (by decide) (ht c hc)
  have hkeep {u : List Char} (hu : ∀ c ∈ u, ¬isPadding c = true) : u.dropWhile isPadding = u := by
    cases u with
    | nil => rfl
    | cons c u => exact List.dropWhile_cons_of_neg (hu c List.mem_cons_self)
  rw [strip, Text.dropLeading, hkeep hpad, Text.dropTrailing,
    hkeep (fun c hc => hpad c (List.mem_reverse.mp hc)), List.reverse_reverse]

/-- A number starts with a digit or a point, in ASCII too. -/
theorem number_head (hm : Mantissa m) (hv : Valued m) :
    ∃ c u, counterparts (m ++ x) = c :: u ∧ (isAsciiDigit c = true ∨ c = '.') := by
  have digits {ds : List Char} (hd : Digits ds) (hv : Valued ds) (r : List Char) :
      ∃ c u, counterparts (ds ++ r) = c :: u ∧ (isAsciiDigit c = true ∨ c = '.') := by
    have hhead := head_counterparts hd hv r
    obtain ⟨c, ds, rfl⟩ := List.exists_cons_of_ne_nil hd.1
    rw [List.cons_append, counterparts] at hhead ⊢
    cases hc : counterpart? c <;> rw [hc] at hhead <;> exact ⟨_, _, rfl, .inl (hhead _ rfl)⟩
  cases hm with
  | @fraction ds hd => exact ⟨'.', counterparts (ds ++ x), rfl, .inr rfl⟩
  | whole hd => exact digits hd hv x
  | both hd _ =>
      rw [List.append_assoc]
      exact digits hd (valued_append.mp hv).1 _

/-- A number that is matched is read, if its digits have values. -/
theorem isSome_floatingPoint? (hm : Mantissa m) (hx : Exponent x) (hv : Valued (m ++ x)) :
    (floatingPoint? (m ++ x)).isSome = true := by
  obtain ⟨c, u, hcu, hc⟩ := number_head (x := x) hm (valued_append.mp hv).1
  have hstrip := strip_numeric (isNumeric_counterparts (number_chars hm hx) hv)
  have hplain : (c ≠ '-' ∧ c ≠ '+') ∧ c.toLower ≠ 'i' ∧ c.toLower ≠ 'n' := by
    rcases hc with hc | rfl
    · exact of_isAsciiDigit
        (P := fun c => (c ≠ '-' ∧ c ≠ '+') ∧ c.toLower ≠ 'i' ∧ c.toLower ≠ 'n') (by decide) hc
    · decide
  have hsign : splitSign (counterparts (m ++ x)) = (false, counterparts (m ++ x)) := by
    refine splitSign_of_head ?_
    rw [hcu]
    rintro a ⟨⟩
    exact hplain.1
  -- No name of a value that is not finite starts with a digit or a point.
  have hname (name : String) {a : Char} {v : List Char} (ha : name.toList = a :: v)
      (hne : c.toLower ≠ a) : String.ofList ((counterparts (m ++ x)).map Char.toLower) ≠ name := by
    rintro rfl
    rw [String.toList_ofList, hcu, List.map_cons] at ha
    exact hne (List.cons.inj ha).1
  simp only [floatingPoint?, hstrip, hsign, hname "inf" rfl hplain.2.1,
    hname "infinity" rfl hplain.2.1, hname "nan" rfl hplain.2.2, decide_false, Bool.or_self,
    Bool.false_eq_true, if_false]
  exact isSome_decimal? hm hx hv

/-- A number without point and exponent is a run of digits. -/
theorem digits_of_not_floating (hm : Mantissa m) (hx : Exponent x)
    (h : isFloating (m ++ x) = false) : Digits m ∧ x = [] := by
  rw [isFloating, List.any_append, Bool.or_eq_false_iff] at h
  refine ⟨?_, ?_⟩
  · cases hm with
    | fraction _ => simp at h
    | whole hd => exact hd
    | both _ _ => simp at h
  · cases hx with
    | absent => rfl
    | present hc _ _ => rcases hc with rfl | rfl <;> simp at h

/-- A run of digits with a value is read as a numeral is, if it is not too long. -/
theorem wholeNumber?_digits (hd : Digits t) (hv : Valued t) :
    if digitLimit < t.length then wholeNumber? 10 t = .tooLong t.length
    else ∃ n : Nat, wholeNumber? 10 t = .value n := by
  obtain ⟨u, hlen, hu, he⟩ := counterparts_digits hd.2 hv []
  rw [List.append_nil, counterparts, List.append_nil] at he
  have hnumeral : IsNumeral u := by
    refine ⟨?_, hu⟩
    rintro rfl
    exact hd.1 (List.eq_nil_of_length_eq_zero hlen.symm)
  -- The ASCII digits are read as the digits themselves are.
  have hread : wholeNumber? 10 t = wholeNumber? 10 u := by
    simp only [wholeNumber?, he, counterparts_of_digits hu]
  rw [hread, wholeNumber?_numeral hnumeral, hlen]
  split
  · rfl
  · exact ⟨_, rfl⟩

/-- **The numbers that can be read.**  Among the numbers that the grammar takes, these are the ones
whose digits have a value and, if they are whole, are not too many. -/
theorem numberLiteral_eq_unreadable (h : number.Takes t r) :
    numberLiteral t = .unreadable ↔ ¬Readable t := by
  obtain ⟨⟨m, x, rfl, hm, hx⟩, -⟩ := number_eq_some h
  by_cases hv : Valued (m ++ x)
  · unfold numberLiteral
    split
    · next hf =>
      obtain ⟨y, hy⟩ := Option.isSome_iff_exists.mp (isSome_floatingPoint? hm hx hv)
      have hreadable : Readable (m ++ x) := ⟨hv, fun hf' => by rw [hf] at hf'; cases hf'⟩
      simp [hy, hreadable]
    · next hf =>
      obtain ⟨hd, rfl⟩ := digits_of_not_floating hm hx (Bool.eq_false_iff.mpr hf)
      rw [List.append_nil] at hv hf ⊢
      have hwhole := wholeNumber?_digits hd hv
      split at hwhole
      · next hlong =>
        simp only [hwhole, true_iff]
        exact fun hr => absurd (hr.short (Bool.eq_false_iff.mpr hf)) (Nat.not_le.mpr hlong)
      · next hshort =>
        obtain ⟨n, hn⟩ := hwhole
        have hreadable : Readable m := ⟨hv, fun _ => Nat.not_lt.mp hshort⟩
        simp [hn, hreadable]
  · -- A digit without a value counts as no character.
    have hforeign : '?' ∈ counterparts (m ++ x) := by
      simp only [Valued, not_forall] at hv
      obtain ⟨c, hc, hdec, hnone⟩ := hv
      refine mem_counterparts hc ?_
      rw [counterpart?_of_isDecimal hdec, Option.not_isSome_iff_eq_none.mp hnone]
      rfl
    have hunreadable : ¬Readable (m ++ x) := fun hr => hv hr.valued
    -- a number with a point or an exponent can be read however long it is
    unfold numberLiteral
    split
    · simp [floatingPoint?_foreign hforeign, hunreadable]
    · have hwhole := wholeNumber?_foreign hforeign
      simp only [hunreadable, not_false_eq_true, iff_true]
      split
      · next n hn => exact absurd hn (hwhole n)
      · rfl
      · rfl

end Trellis.Expr.Token
