import Trellis.Proofs.Syntax.Lexicon

/-!
# Proofs — Syntax — Regular

Lexemes described by regular expressions, read declaratively: `Regex.Fits r t k` says that `r` fits
the text `t` in front of `k`, with no word on the order in which alternatives are tried or on how
far a repetition goes.  `declared` is the lexicon of those expressions; a name is excluded where a
reserved word fits.

Lexemes as the matchers take them are as the regular expressions describe them
(`declared_of_greedy`).
-/

namespace Trellis.Expr

open Trellis.Text (isSpace isDecimal)

/-- Regular expressions. -/
inductive Regex where
  | empty
  | one (p : Char → Bool)
  /-- The end of a word, after a word character. -/
  | wordEnd
  | seq (a b : Regex)
  | alt (a b : Regex)
  | star (a : Regex)

namespace Regex

/-- The regular expression fits `t` in front of `k`. -/
inductive Fits : Regex → (t k : List Char) → Prop where
  | empty (k : List Char) : Fits empty [] k
  | one {p : Char → Bool} {c : Char} (h : p c = true) (k : List Char) : Fits (one p) [c] k
  | wordEnd {k : List Char} (h : Token.endsWord k = true) : Fits wordEnd [] k
  | seq {a b : Regex} {t u k : List Char} (h : Fits a t (u ++ k)) (h' : Fits b u k) :
      Fits (seq a b) (t ++ u) k
  | left {a : Regex} {t k : List Char} (h : Fits a t k) (b : Regex) : Fits (alt a b) t k
  | right {b : Regex} {t k : List Char} (a : Regex) (h : Fits b t k) : Fits (alt a b) t k
  | stop (a : Regex) (k : List Char) : Fits (star a) [] k
  | more {a : Regex} {t u k : List Char} (h : Fits a t (u ++ k)) (h' : Fits (star a) u k) :
      Fits (star a) (t ++ u) k

/-- A character. -/
def char (c : Char) : Regex := one (· == c)

/-- A fixed text. -/
def exactly : List Char → Regex
  | []     => empty
  | c :: s => seq (char c) (exactly s)

/-- A whole word. -/
def word (w : String) : Regex := seq (exactly w.toList) wordEnd

/-- One of several. -/
def oneOf : List Regex → Regex
  | []      => one fun _ => false
  | r :: rs => alt r (oneOf rs)

/-- An optional part. -/
def opt (a : Regex) : Regex := alt a empty

/-- A part repeated at least once. -/
def plus (a : Regex) : Regex := seq a (star a)

/-! ### The tokens -/

/-- Decimal digits and a point, and an exponent: `((\.\d+)|(\d+(\.\d*)?))([eE][+-]?\d+)?`. -/
def number : Regex :=
  let digits := plus (one isDecimal)
  seq (alt (seq (char '.') digits) (seq digits (opt (seq (char '.') (star (one isDecimal))))))
    (opt (seq (one ['e', 'E'].contains) (seq (opt (one ['+', '-'].contains)) digits)))

/-- A text in given quotes: `"(?:[^"\\]|\\.)*"`. -/
def textIn (quote : Char) : Regex :=
  seq (char quote)
    (seq
      (star (alt (one fun c => c != quote && c != '\\') (seq (char '\\') (one (· != '\n')))))
      (char quote))

/-- The reserved words. -/
def reserved : Regex := oneOf (Token.reserved.map word)

/-- The letters, digits and signs of a name. -/
def identifier : Regex := seq (one Token.startsName) (star (one Token.continuesName))

/-- How a binary operator is written. -/
def sign : Operator → Regex
  | .isIn  => word "in"
  | .notIn => seq (exactly "not".toList) (seq (plus (one isSpace)) (word "in"))
  | o      => exactly o.symbol.toList

/-- How a connective is written. -/
def connective : Connective → Regex
  | .disj => alt (exactly "||".toList) (word "or")
  | .conj => alt (exactly "&&".toList) (word "and")

end Regex

/-- The operators of a level. -/
def Tier.operators : Tier → List Operator
  | comparison => [.strictEq, .strictNe, .eq, .ne, .le, .ge, .lt, .gt, .notIn, .isIn]
  | sum        => [.add, .sub]
  | product    => [.mul, .div, .mod]

/-- Lexemes as the regular expressions of the grammar describe them. -/
def declared : Lexicon
  | .space, w, k        => (Regex.star (.one isSpace)).Fits w k
  | .symbol c, t, _     => t = [c]
  | .number, t, k       => Regex.number.Fits t k
  | .text, t, k         => (Regex.alt (.textIn '"') (.textIn '\'')).Fits t k
  | .truth, t, k        => (Regex.oneOf (["true", "false", "True", "False"].map .word)).Fits t k
  | .null, t, k         => (Regex.oneOf (["null", "None", "undefined"].map .word)).Fits t k
  | .name, t, k         => Regex.identifier.Fits t k ∧
      ∀ u k', t ++ k = u ++ k' → ¬ Regex.reserved.Fits u k'
  | .denial, t, k       => (Regex.alt (.word "not") (.exactly "!".toList)).Fits t k
  | .connective c, t, k => (Regex.connective c).Fits t k
  | .sign i o, t, k     => o ∈ i.operators ∧ (Regex.sign o).Fits t k

/-! ### What fits -/

namespace Regex

variable {a b : Regex} {p : Char → Bool} {c : Char} {t u k : List Char}

/-- A character fits itself. -/
theorem fits_char : (char c).Fits t k ↔ t = [c] := by
  constructor
  · intro h
    cases h with
    | one h => rw [beq_iff_eq.mp h]
  · rintro rfl
    exact .one (p := (· == c)) (beq_self_eq_true c) k

/-- A text fits itself. -/
theorem fits_exactly {s : List Char} : (exactly s).Fits t k ↔ t = s := by
  induction s generalizing t with
  | nil =>
      constructor
      · rintro ⟨⟩
        rfl
      · rintro rfl
        exact .empty k
  | cons c s ih =>
      constructor
      · intro h
        cases h with
        | seq h h' => rw [fits_char.mp h, ih.mp h', List.singleton_append]
      · rintro rfl
        exact .seq (t := [c]) (fits_char.mpr rfl) (ih.mpr rfl)

/-- A word fits itself where no letter or digit goes on with it. -/
theorem fits_word {w : String} :
    (word w).Fits t k ↔ t = w.toList ∧ Token.endsWord k = true := by
  constructor
  · intro h
    cases h with
    | seq h h' =>
        cases h' with
        | wordEnd hk => exact ⟨by rw [fits_exactly.mp h, List.append_nil], hk⟩
  · rintro ⟨rfl, hk⟩
    rw [← List.append_nil w.toList]
    exact .seq (fits_exactly.mpr rfl) (.wordEnd hk)

/-- One of several expressions fits what some of them fits. -/
theorem fits_oneOf {rs : List Regex} : (oneOf rs).Fits t k ↔ ∃ r ∈ rs, r.Fits t k := by
  induction rs with
  | nil =>
      constructor
      · intro h
        cases h with
        | one h => cases h
      · rintro ⟨r, hr, -⟩
        cases hr
  | cons r rs ih =>
      constructor
      · intro h
        cases h with
        | left h => exact ⟨r, List.mem_cons_self, h⟩
        | right _ h =>
            obtain ⟨r', hr, h'⟩ := ih.mp h
            exact ⟨r', List.mem_cons_of_mem _ hr, h'⟩
      · rintro ⟨r', hr, h⟩
        rcases List.mem_cons.mp hr with rfl | hr
        · exact .left h _
        · exact .right _ (ih.mpr ⟨r', hr, h⟩)

/-- Characters of a class fit its repetition. -/
theorem fits_star_one (h : ∀ c ∈ t, p c = true) : (star (one p)).Fits t k := by
  induction t with
  | nil => exact .stop _ k
  | cons c t ih =>
      refine .more (t := [c]) (.one (h c List.mem_cons_self) _) (ih fun c hc => ?_)
      exact h c (List.mem_cons_of_mem _ hc)

/-- So do they if there is one at least. -/
theorem fits_plus_one (hne : t ≠ []) (h : ∀ c ∈ t, p c = true) : (plus (one p)).Fits t k := by
  cases t with
  | nil => exact absurd rfl hne
  | cons c t =>
      refine .seq (t := [c]) (.one (h c List.mem_cons_self) _) (fits_star_one fun c hc => ?_)
      exact h c (List.mem_cons_of_mem _ hc)

/-- One of several words fits where it ends. -/
theorem fits_words {ws : List String} :
    (oneOf (ws.map word)).Fits t k ↔ ∃ w ∈ ws, t = w.toList ∧ Token.endsWord k = true := by
  constructor
  · intro h
    obtain ⟨r, hr, h⟩ := fits_oneOf.mp h
    obtain ⟨w, hw, rfl⟩ := List.mem_map.mp hr
    exact ⟨w, hw, fits_word.mp h⟩
  · rintro ⟨w, hw, h⟩
    exact fits_oneOf.mpr ⟨_, List.mem_map_of_mem hw, fits_word.mpr h⟩

/-- What may be absent fits nothing, too. -/
theorem fits_opt (h : t = [] ∨ a.Fits t k) : (opt a).Fits t k := by
  rcases h with rfl | h
  · exact .right _ (.empty k)
  · exact .left h _

/-! ### Numbers and texts -/

/-- Digits fit as one or more decimal characters. -/
theorem fits_digits (h : Token.Digits t) : (plus (one isDecimal)).Fits t k :=
  fits_plus_one h.1 h.2

/-- The digits in front of an exponent fit, with a point or without. -/
theorem fits_mantissa (h : Token.Mantissa t) :
    (alt (seq (char '.') (plus (one isDecimal)))
      (seq (plus (one isDecimal)) (opt (seq (char '.') (star (one isDecimal)))))).Fits t k := by
  cases h with
  | fraction h => exact .left (.seq (t := ['.']) (fits_char.mpr rfl) (fits_digits h)) _
  | whole h =>
      rw [← List.append_nil t]
      exact .right _ (.seq (fits_digits h) (fits_opt (.inl rfl)))
  | both h h' =>
      refine .right _ (.seq (fits_digits h) (fits_opt (.inr ?_)))
      exact .seq (t := ['.']) (fits_char.mpr rfl) (fits_star_one h')

/-- An exponent fits, and so does none. -/
theorem fits_exponent (h : Token.Exponent t) :
    (opt (seq (one ['e', 'E'].contains)
      (seq (opt (one ['+', '-'].contains)) (plus (one isDecimal))))).Fits t k := by
  cases h with
  | absent => exact fits_opt (.inl rfl)
  | @present c sign ds hc hs h =>
      have hsign (k : List Char) : (opt (one ['+', '-'].contains)).Fits sign k := by
        rcases hs with rfl | rfl | rfl
        · exact fits_opt (.inl rfl)
        · exact fits_opt (.inr (.one rfl k))
        · exact fits_opt (.inr (.one rfl k))
      refine fits_opt (.inr (.seq (t := [c]) (.one ?_ _) (.seq (hsign _) (fits_digits h))))
      rcases hc with rfl | rfl <;> rfl

/-- A number that is taken fits the expression for numbers. -/
theorem fits_number (h : Token.number.Takes t k) : number.Fits t k := by
  obtain ⟨⟨m, x, rfl, hm, hx⟩, -⟩ := Token.number_eq_some h
  exact .seq (fits_mantissa hm) (fits_exponent hx)

/-- What stands between quotes fits: no quote but behind a backslash. -/
theorem fits_inside {quote : Char} (h : Token.Inside quote t) :
    (star (alt (one fun c => c != quote && c != '\\')
      (seq (char '\\') (one (· != '\n'))))).Fits t k := by
  induction h with
  | nil => exact .stop _ k
  | @plain c t hq hc _ ih => exact .more (t := [c]) (.left (.one (by simp [hq, hc]) _) _) ih
  | @escape c t hc _ ih =>
      refine .more (t := ['\\', c]) (.right _ ?_) ih
      exact .seq (t := ['\\']) (fits_char.mpr rfl) (.one (by simp [hc]) _)

/-- A text that is taken fits with its quotes, which are of one kind. -/
theorem fits_quoted (h : Token.quoted.Takes t k) :
    (alt (textIn '"') (textIn '\'')).Fits t k := by
  obtain ⟨quote, b, hq, hb, rfl, -⟩ := Token.quoted_eq_some h
  have fits (quote : Char) (hb : Token.Inside quote b) :
      (textIn quote).Fits (quote :: b ++ [quote]) k :=
    .seq (t := [quote]) (fits_char.mpr rfl) (.seq (fits_inside hb) (fits_char.mpr rfl))
  simp only [Token.startsText, List.contains_cons, Bool.or_eq_true, beq_iff_eq] at hq
  rcases hq with rfl | rfl | hq
  · exact .left (fits _ hb) _
  · exact .right _ (fits _ hb)
  · cases hq

/-! ### Names and operators -/

/-- Where a reserved word fits, the matchers take one. -/
theorem reservedWord_ne_none (h : reserved.Fits t k) : Token.reservedWord (t ++ k) ≠ none := by
  obtain ⟨w, hw, rfl, hk⟩ := fits_words.mp h
  have takes : Token.word w (w.toList ++ k) = some (w.toList, k) :=
    Token.word_eq_some.mpr ⟨rfl, rfl, hk⟩
  exact Token.oneOf_ne_none (List.mem_map_of_mem hw) (by rw [takes]; nofun)

/-- A name that is taken fits the expression for names. -/
theorem fits_identifier (h : Token.identifier.Takes t k) : identifier.Fits t k := by
  obtain ⟨⟨c, u, rfl, hc, hu⟩, -⟩ := Token.identifier_eq_some.mp h
  exact .seq (t := [c]) (.one hc _) (fits_star_one hu)

/-- The words `not in` fit with the white space between them. -/
theorem fits_notIn (h : Token.notInWords.Takes t k) : (sign .notIn).Fits t k := by
  obtain ⟨w, hne, hw, rfl, -, hk⟩ := Token.notInWords_eq_some.mp h
  rw [List.append_assoc]
  exact .seq (fits_exactly.mpr rfl) (.seq (fits_plus_one hne hw) (fits_word.mpr ⟨rfl, hk⟩))

/-- What a pattern of signs and words takes fits one of them. -/
theorem fits_symbolOrWord {s : List Char} {w : String} {ps : List Pattern}
    (hps : ∀ p ∈ ps, p = Token.exactly s ∨ p = Token.word w)
    (h : (Token.oneOf ps).Takes t k) : (exactly s).Fits t k ∨ (word w).Fits t k := by
  obtain ⟨p, hmem, hp⟩ := Token.mem_of_oneOf h
  rcases hps p hmem with rfl | rfl
  · exact .inl (fits_exactly.mpr (Token.exactly_eq_some.mp hp).1)
  · obtain ⟨ht, -, hk⟩ := Token.word_eq_some.mp hp
    exact .inr (fits_word.mpr ⟨ht, hk⟩)

/-- A denial that is taken fits. -/
theorem fits_denial (h : Token.denial.Takes t k) :
    (alt (word "not") (exactly "!".toList)).Fits t k := by
  rcases fits_symbolOrWord (s := "!".toList) (w := "not") (by simp) h with h | h
  · exact .right _ h
  · exact .left h _

/-- So does a connective. -/
theorem fits_connective {o : Connective} (h : o.pattern.Takes t k) : (connective o).Fits t k := by
  cases o with
  | disj =>
      rcases fits_symbolOrWord (s := "||".toList) (w := "or") (by simp) h with h | h
      · exact .left h _
      · exact .right _ h
  | conj =>
      rcases fits_symbolOrWord (s := "&&".toList) (w := "and") (by simp) h with h | h
      · exact .left h _
      · exact .right _ h

/-- So does every sign of a tier, as its own operator. -/
theorem fits_sign (i : Tier) :
    ∀ c ∈ i.signs, c.1 ∈ i.operators ∧ (c.2.Takes t k → (sign c.1).Fits t k) := by
  intro c hc
  have symbol {s : List Char} (h : (Token.exactly s).Takes t k) : (exactly s).Fits t k :=
    fits_exactly.mpr (Token.exactly_eq_some.mp h).1
  cases i with
  | comparison =>
      simp only [Tier.signs, Token.comparisons, List.mem_cons, List.not_mem_nil, or_false] at hc
      rcases hc with rfl | rfl | rfl | rfl | rfl | rfl | rfl | rfl | rfl | rfl
      iterate 8 exact ⟨by decide, symbol⟩
      · exact ⟨by decide, fits_notIn⟩
      · refine ⟨by decide, fun h => ?_⟩
        obtain ⟨ht, -, hk⟩ := Token.word_eq_some.mp h
        exact fits_word.mpr ⟨ht, hk⟩
  | sum =>
      simp only [Tier.signs, Token.sums, List.map_cons, List.map_nil, List.mem_cons,
        List.not_mem_nil, or_false] at hc
      rcases hc with rfl | rfl <;> exact ⟨by decide, symbol⟩
  | product =>
      simp only [Tier.signs, Token.products, List.map_cons, List.map_nil, List.mem_cons,
        List.not_mem_nil, or_false] at hc
      rcases hc with rfl | rfl | rfl <;> exact ⟨by decide, symbol⟩

end Regex

/-- Lexemes as the matchers take them are as the regular expressions describe them. -/
theorem declared_of_greedy (x : Lexeme) (t k : List Char) (h : greedy x t k) :
    declared x t k := by
  cases x with
  | space => exact Regex.fits_star_one (greedy_space.mp h).1
  | symbol c => exact h
  | number => exact Regex.fits_number h
  | text => exact Regex.fits_quoted h
  | truth =>
      obtain ⟨w, hw, rfl, -, hk⟩ := Token.mem_of_words h
      exact Regex.fits_words.mpr ⟨w, hw, rfl, hk⟩
  | null =>
      obtain ⟨w, hw, rfl, -, hk⟩ := Token.mem_of_words h
      exact Regex.fits_words.mpr ⟨w, hw, rfl, hk⟩
  | name =>
      refine ⟨Regex.fits_identifier h.2, fun u k' e hu => ?_⟩
      exact Regex.reservedWord_ne_none hu (e ▸ h.1)
  | denial => exact Regex.fits_denial h
  | connective c => exact Regex.fits_connective h
  | sign i o =>
      obtain ⟨p, hmem, hp⟩ := mem_of_firstSign h
      obtain ⟨ho, hfits⟩ := Regex.fits_sign i _ hmem
      exact ⟨ho, hfits hp⟩

end Trellis.Expr
