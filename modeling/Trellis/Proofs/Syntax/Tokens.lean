import Trellis.Proofs.Syntax.Matching
import Trellis.Expr.Token

/-!
# Proofs — Syntax — Tokens

What the patterns of tokens take.

* `Pattern.Exact`: what is taken stands at the front of the text.  All patterns are exact.
* `Pattern.Starts p q`: what is taken is not empty, and `q` holds of its first character.  All
  patterns other than that of white space have such a `q`, which tells them apart at a glance
  (`Pattern.Starts.eq_none`).
-/

namespace Trellis.Expr

open Trellis.Text (isSpace isDecimal)

/-- What the pattern takes starts with a character of a class. -/
def Pattern.Starts (p : Pattern) (q : Char → Bool) : Prop :=
  ∀ ⦃s t r⦄, p s = some (t, r) → ∃ c t', t = c :: t' ∧ q c = true

/-- A pattern takes nothing where none of its first characters stands. -/
theorem Pattern.Starts.eq_none {p : Pattern} {q : Char → Bool} (h : p.Starts q) (hp : p.Exact)
    {s : List Char} (hs : ∀ c ∈ s.head?, q c = false) : p s = none := by
  cases hx : p s with
  | none => rfl
  | some x =>
      obtain ⟨t, r⟩ := x
      obtain ⟨c, t', rfl, hc⟩ := h hx
      obtain rfl := hp hx
      rw [hs c rfl] at hc
      cases hc

namespace Token

variable {s t r u : List Char} {ps : List Pattern}

/-! ### Runs, symbols and words -/

theorem exact_run (p : Char → Bool) : (run p).Exact := by
  rintro s t r ⟨⟩
  exact List.takeWhile_append_dropWhile.symm

/-- A run of characters of a class in front of one that is not in it. -/
theorem span_append {p : Char → Bool} (ht : ∀ c ∈ t, p c = true)
    (hr : ∀ c ∈ r.head?, p c = false) :
    (t ++ r).takeWhile p = t ∧ (t ++ r).dropWhile p = r := by
  rw [List.takeWhile_append_of_pos ht, List.dropWhile_append_of_pos ht]
  cases r with
  | nil => simp
  | cons c r => simp [hr c rfl]

/-- A text is taken where it stands. -/
theorem exactly_eq_some : exactly t s = some (u, r) ↔ u = t ∧ s = t ++ r := by
  simp only [exactly, Option.ite_none_right_eq_some, List.isPrefixOf_iff_prefix, Option.some.injEq,
    Prod.mk.injEq]
  constructor
  · rintro ⟨⟨r', rfl⟩, rfl, rfl⟩
    simp
  · rintro ⟨rfl, rfl⟩
    simp

/-- It takes what it is. -/
theorem exact_exactly (t : List Char) : (exactly t).Exact := by
  intro s u r h
  obtain ⟨rfl, hs⟩ := exactly_eq_some.mp h
  exact hs

/-- It starts with its first character. -/
theorem starts_exactly {q : Char → Bool} (h : t.head?.any q = true) : (exactly t).Starts q := by
  intro s u r hs
  obtain ⟨rfl, -⟩ := exactly_eq_some.mp hs
  obtain ⟨c, hc, hq⟩ := (Option.any_eq_true _ _).mp h
  obtain ⟨t', rfl⟩ := List.head?_eq_some_iff.mp hc
  exact ⟨c, t', rfl, hq⟩

/-- A word is taken where it stands and ends. -/
theorem word_eq_some {w : String} :
    word w s = some (t, r) ↔ t = w.toList ∧ s = t ++ r ∧ endsWord r = true := by
  simp only [word]
  constructor
  · intro h
    cases he : exactly w.toList s with
    | none => simp [he] at h
    | some q =>
        obtain ⟨t', r'⟩ := q
        obtain ⟨rfl, rfl⟩ := exactly_eq_some.mp he
        simp only [he, Option.ite_none_right_eq_some, Option.some.injEq, Prod.mk.injEq] at h
        obtain ⟨hw, rfl, rfl⟩ := h
        exact ⟨rfl, rfl, hw⟩
  · rintro ⟨rfl, rfl, hw⟩
    simp [exactly_eq_some.mpr ⟨rfl, rfl⟩, hw]

/-- It takes what it is. -/
theorem exact_word (w : String) : (word w).Exact := fun _ _ _ h => (word_eq_some.mp h).2.1

/-- It starts with its first character. -/
theorem starts_word {w : String} {q : Char → Bool} (h : w.toList.head?.any q = true) :
    (word w).Starts q := by
  intro s t r hs
  obtain ⟨rfl, -⟩ := word_eq_some.mp hs
  obtain ⟨c, hc, hq⟩ := (Option.any_eq_true _ _).mp h
  obtain ⟨t', ht⟩ := List.head?_eq_some_iff.mp hc
  exact ⟨c, t', ht, hq⟩

/-- What the first of several patterns takes is taken by one of them. -/
theorem mem_of_oneOf {q : List Char × List Char} (h : oneOf ps s = some q) :
    ∃ p ∈ ps, p s = some q := by
  induction ps with
  | nil => cases h
  | cons p ps ih =>
      simp only [oneOf] at h
      cases hp : p s with
      | none =>
          rw [hp] at h
          obtain ⟨p', hmem, h'⟩ := ih h
          exact ⟨p', List.mem_cons_of_mem _ hmem, h'⟩
      | some x =>
          rw [hp] at h
          exact ⟨p, List.mem_cons_self, hp.trans h⟩

/-- One of several patterns takes something where some of them does. -/
theorem oneOf_ne_none {p : Pattern} (hmem : p ∈ ps) (h : p s ≠ none) : oneOf ps s ≠ none := by
  induction ps with
  | nil => cases hmem
  | cons q ps ih =>
      simp only [oneOf]
      cases hq : q s with
      | some x => nofun
      | none =>
          rcases List.mem_cons.mp hmem with rfl | hmem
          · exact absurd hq h
          · exact ih hmem

/-- It takes nothing where none of them does. -/
theorem oneOf_eq_none (h : ∀ p ∈ ps, p s = none) : oneOf ps s = none := by
  cases hs : oneOf ps s with
  | none => rfl
  | some q =>
      obtain ⟨p, hmem, hp⟩ := mem_of_oneOf hs
      rw [h p hmem] at hp
      cases hp

/-- What one of exact patterns takes is taken exactly. -/
theorem exact_oneOf (h : ∀ p ∈ ps, p.Exact) : (oneOf ps).Exact := by
  intro s t r hs
  obtain ⟨p, hmem, hp⟩ := mem_of_oneOf hs
  exact h p hmem hp

/-- It starts as they do. -/
theorem starts_oneOf {q : Char → Bool} (h : ∀ p ∈ ps, p.Starts q) : (oneOf ps).Starts q := by
  intro s t r hs
  obtain ⟨p, hmem, hp⟩ := mem_of_oneOf hs
  exact h p hmem hp

/-- One of several words is taken where it stands and ends. -/
theorem mem_of_words {ws : List String} (h : oneOf (ws.map word) s = some (t, r)) :
    ∃ w ∈ ws, t = w.toList ∧ s = t ++ r ∧ endsWord r = true := by
  obtain ⟨p, hmem, hp⟩ := mem_of_oneOf h
  obtain ⟨w, hw, rfl⟩ := List.mem_map.mp hmem
  exact ⟨w, hw, word_eq_some.mp hp⟩

/-- Words are taken exactly. -/
theorem exact_words (ws : List String) : (oneOf (ws.map word)).Exact := by
  intro s t r h
  obtain ⟨-, -, -, hs, -⟩ := mem_of_words h
  exact hs

/-- They start with their first characters. -/
theorem starts_words {ws : List String} {q : Char → Bool}
    (h : ∀ w ∈ ws, w.toList.head?.any q = true) : (oneOf (ws.map word)).Starts q := by
  refine starts_oneOf fun p hp => ?_
  obtain ⟨w, hw, rfl⟩ := List.mem_map.mp hp
  exact starts_word (h w hw)

/-- The first characters of the words for truth values. -/
def startsTruth (c : Char) : Bool := ['t', 'f', 'T', 'F'].contains c

/-- The first characters of the words for the empty value. -/
def startsNull (c : Char) : Bool := ['n', 'N', 'u'].contains c

theorem starts_truthWord : truthWord.Starts startsTruth :=
  starts_words (by decide)

theorem starts_nullWord : nullWord.Starts startsNull :=
  starts_words (by decide)

theorem exact_truthWord : truthWord.Exact := exact_words _

theorem exact_nullWord : nullWord.Exact := exact_words _

/-! ### Operators -/

/-- The first characters of denials. -/
def startsDenial (c : Char) : Bool := ['n', '!'].contains c

/-- A denial is taken exactly. -/
theorem exact_denial : denial.Exact := exact_oneOf (by simp [exact_word, exact_exactly])

/-- It starts with its sign or the letter of its word. -/
theorem starts_denial : denial.Starts startsDenial :=
  starts_oneOf (List.forall_mem_cons.mpr
    ⟨starts_word rfl, List.forall_mem_singleton.mpr (starts_exactly rfl)⟩)

/-- The first characters of conjunctions. -/
def startsConjunctive (c : Char) : Bool := ['&', 'a'].contains c

theorem exact_conjunctive : conjunctive.Exact := exact_oneOf (by simp [exact_word, exact_exactly])

theorem starts_conjunctive : conjunctive.Starts startsConjunctive :=
  starts_oneOf (List.forall_mem_cons.mpr
    ⟨starts_exactly rfl, List.forall_mem_singleton.mpr (starts_word rfl)⟩)

/-- The first characters of disjunctions. -/
def startsDisjunctive (c : Char) : Bool := ['|', 'o'].contains c

theorem exact_disjunctive : disjunctive.Exact := exact_oneOf (by simp [exact_word, exact_exactly])

theorem starts_disjunctive : disjunctive.Starts startsDisjunctive :=
  starts_oneOf (List.forall_mem_cons.mpr
    ⟨starts_exactly rfl, List.forall_mem_singleton.mpr (starts_word rfl)⟩)

/-- The words "not" and "in" stand with white space between them, and no word goes on. -/
theorem notInWords_eq_some :
    notInWords s = some (t, r) ↔ ∃ w, w ≠ [] ∧ (∀ c ∈ w, isSpace c = true) ∧
      t = "not".toList ++ w ++ "in".toList ∧ s = t ++ r ∧ endsWord r = true := by
  constructor
  · intro h
    simp only [notInWords] at h
    split at h
    · cases h
    · next t₁ r₁ he =>
      obtain ⟨rfl, rfl⟩ := exactly_eq_some.mp he
      split at h
      · cases h
      · next hw =>
        split at h
        · next t₂ r₂ hin =>
          obtain ⟨rfl, rfl⟩ := Prod.mk.inj (Option.some.inj h)
          obtain ⟨rfl, hd, hr⟩ := word_eq_some.mp hin
          refine ⟨_, hw, List.all_eq_true.mp List.all_takeWhile, rfl, ?_, hr⟩
          rw [List.append_assoc, List.append_assoc, ← hd, List.takeWhile_append_dropWhile]
        · cases h
  · -- the white space ends where the second word begins
    rintro ⟨w, hne, hw, rfl, rfl, hr⟩
    obtain ⟨ht, hd⟩ := span_append (p := isSpace) (r := "in".toList ++ r) hw (by simp; rfl)
    have he : exactly "not".toList ("not".toList ++ w ++ "in".toList ++ r) =
        some ("not".toList, w ++ ("in".toList ++ r)) :=
      exactly_eq_some.mpr ⟨rfl, by simp only [List.append_assoc]⟩
    have hin : word "in" ("in".toList ++ r) = some ("in".toList, r) := word_eq_some.mpr ⟨rfl, rfl, hr⟩
    simp only [notInWords, he, ht, hd, hin]

/-- The words `not in` are taken with the white space between them. -/
theorem exact_notInWords : notInWords.Exact := by
  intro s t r h
  obtain ⟨-, -, -, -, hs, -⟩ := notInWords_eq_some.mp h
  exact hs

theorem starts_notInWords {q : Char → Bool} (hq : q 'n' = true) : notInWords.Starts q := by
  intro s t r h
  obtain ⟨w, -, -, rfl, -, -⟩ := notInWords_eq_some.mp h
  exact ⟨'n', _, rfl, hq⟩

/-! ### Names -/

/-- A name is taken to its end: it begins as names do, and goes on as they do. -/
theorem identifier_eq_some :
    identifier s = some (t, r) ↔ (∃ c u, t = c :: u ∧ startsName c = true ∧
      ∀ a ∈ u, continuesName a = true) ∧ s = t ++ r ∧ ∀ a ∈ r.head?, continuesName a = false := by
  constructor
  · intro h
    cases s with
    | nil => cases h
    | cons c s =>
        simp only [identifier, Option.ite_none_right_eq_some, Option.some.injEq,
          Prod.mk.injEq] at h
        obtain ⟨hc, rfl, rfl⟩ := h
        refine ⟨⟨c, _, rfl, hc, List.all_eq_true.mp List.all_takeWhile⟩, by simp, fun a ha => ?_⟩
        have := List.head?_dropWhile_not continuesName s
        rw [ha] at this
        exact this
  · rintro ⟨⟨c, u, rfl, hc, hu⟩, rfl, hr⟩
    obtain ⟨ht, hd⟩ := span_append hu hr
    simp [identifier, hc, ht, hd]

theorem exact_identifier : identifier.Exact := fun _ _ _ h => (identifier_eq_some.mp h).2.1

theorem starts_identifier : identifier.Starts startsName := by
  intro s t r h
  obtain ⟨⟨c, u, rfl, hc, -⟩, -⟩ := identifier_eq_some.mp h
  exact ⟨c, u, rfl, hc⟩

/-! ### Numbers -/

/-- Decimal digits, which may be absent. -/
def Decimals (t : List Char) : Prop := ∀ c ∈ t, isDecimal c = true

/-- Decimal digits, at least one. -/
def Digits (t : List Char) : Prop := t ≠ [] ∧ Decimals t

/-- The digits that are taken are one at least. -/
theorem digits_eq_some (h : digits s = some (t, r)) : Digits t ∧ s = t ++ r := by
  simp only [digits] at h
  split at h
  · cases h
  · next hne =>
    obtain ⟨rfl, rfl⟩ := Prod.mk.inj (Option.some.inj h)
    refine ⟨⟨hne, ?_⟩, List.takeWhile_append_dropWhile.symm⟩
    exact List.all_eq_true.mp List.all_takeWhile

/-- Digits with a point and more digits behind, if there is a point. -/
def places : List Char × List Char → List Char × List Char
  | (ds, '.' :: r) => (ds ++ '.' :: r.takeWhile isDecimal, r.dropWhile isDecimal)
  | q              => q

/-- Without a point behind them, digits have no places. -/
theorem places_of_ne {ds r : List Char} (h : ∀ r', r ≠ '.' :: r') : places (ds, r) = (ds, r) := by
  unfold places
  split
  · next heq => exact absurd (Prod.mk.inj heq).2 (h _)
  · rfl

/-- Without a point in front, a number begins with digits. -/
theorem mantissa_of_ne (h : ∀ r, s ≠ '.' :: r) : mantissa s = (digits s).map places := by
  unfold mantissa
  split
  · exact absurd rfl (h _)
  · cases digits s with
    | none => rfl
    | some q =>
        unfold places
        simp only [Option.map_some]
        split <;> split <;> simp_all

/-- What stands in front of an exponent. -/
inductive Mantissa : List Char → Prop where
  | fraction {ds : List Char} (h : Digits ds) : Mantissa ('.' :: ds)
  | whole {ds : List Char} (h : Digits ds) : Mantissa ds
  | both {ds ds' : List Char} (h : Digits ds) (h' : Decimals ds') : Mantissa (ds ++ '.' :: ds')

/-- What is taken in front of an exponent has a digit at least. -/
theorem mantissa_eq_some (h : mantissa s = some (t, r)) : Mantissa t ∧ s = t ++ r := by
  by_cases hp : ∃ r', s = '.' :: r'
  · obtain ⟨s, rfl⟩ := hp
    obtain ⟨⟨ds, r'⟩, hd, e⟩ := Option.map_eq_some_iff.mp h
    obtain ⟨rfl, rfl⟩ := Prod.mk.inj e
    obtain ⟨hds, rfl⟩ := digits_eq_some hd
    exact ⟨.fraction hds, rfl⟩
  · rw [mantissa_of_ne fun r' e => hp ⟨r', e⟩] at h
    obtain ⟨⟨ds, r'⟩, hd, e⟩ := Option.map_eq_some_iff.mp h
    obtain ⟨hds, rfl⟩ := digits_eq_some hd
    by_cases hp' : ∃ r'', r' = '.' :: r''
    · obtain ⟨r'', rfl⟩ := hp'
      obtain ⟨rfl, rfl⟩ := Prod.mk.inj e
      exact ⟨.both hds (List.all_eq_true.mp List.all_takeWhile), by simp⟩
    · rw [places_of_ne fun r'' e => hp' ⟨r'', e⟩] at e
      obtain ⟨rfl, rfl⟩ := Prod.mk.inj e
      exact ⟨.whole hds, rfl⟩

/-- An exponent, which may be absent. -/
inductive Exponent : List Char → Prop where
  | absent : Exponent []
  | present {c : Char} {sign ds : List Char} (hc : c = 'e' ∨ c = 'E')
      (hs : sign = [] ∨ sign = ['+'] ∨ sign = ['-']) (h : Digits ds) : Exponent (c :: sign ++ ds)

/-- A sign is taken if one is there. -/
theorem optionalSign_append (s : List Char) :
    ((optionalSign s).1 = [] ∨ (optionalSign s).1 = ['+'] ∨ (optionalSign s).1 = ['-']) ∧
      s = (optionalSign s).1 ++ (optionalSign s).2 := by
  unfold optionalSign
  split <;> simp

/-- An exponent is taken if a whole one is there. -/
theorem exponent_append (s : List Char) :
    Exponent (exponent s).1 ∧ s = (exponent s).1 ++ (exponent s).2 := by
  cases s with
  | nil => exact ⟨.absent, rfl⟩
  | cons c s =>
      obtain ⟨hs, e⟩ := optionalSign_append s
      simp only [exponent]
      split
      · next hc =>
        cases hd : digits (optionalSign s).2 with
        | none => exact ⟨.absent, rfl⟩
        | some q =>
            obtain ⟨ds, r⟩ := q
            obtain ⟨hds, e'⟩ := digits_eq_some hd
            refine ⟨.present (by simpa using hc) hs hds, ?_⟩
            rw [List.append_assoc, ← e', List.cons_append, ← e]
      · exact ⟨.absent, rfl⟩

/-- What is taken as a number is a mantissa and an exponent. -/
theorem number_eq_some (h : number s = some (t, r)) :
    (∃ m x, t = m ++ x ∧ Mantissa m ∧ Exponent x) ∧ s = t ++ r := by
  simp only [number] at h
  cases hm : mantissa s with
  | none => simp [hm] at h
  | some q =>
      obtain ⟨m, r'⟩ := q
      rw [hm] at h
      obtain ⟨rfl, rfl⟩ := Prod.mk.inj (Option.some.inj h)
      obtain ⟨hm', rfl⟩ := mantissa_eq_some hm
      obtain ⟨hx, e⟩ := exponent_append r'
      refine ⟨⟨m, _, rfl, hm', hx⟩, ?_⟩
      rw [List.append_assoc, ← e]

theorem exact_number : number.Exact := fun _ _ _ h => (number_eq_some h).2

/-- The first characters of numbers. -/
def startsNumber (c : Char) : Bool := isDecimal c || c == '.'

/-- Digits begin as numbers do. -/
theorem Digits.starts (h : Digits t) (u : List Char) :
    ∃ c t', t ++ u = c :: t' ∧ startsNumber c = true := by
  cases t with
  | nil => exact absurd rfl h.1
  | cons c t => exact ⟨c, t ++ u, rfl, by simp [startsNumber, h.2 c List.mem_cons_self]⟩

theorem starts_number : number.Starts startsNumber := by
  intro s t r h
  obtain ⟨⟨m, x, rfl, hm, -⟩, -⟩ := number_eq_some h
  cases hm with
  | @fraction ds hd => exact ⟨'.', ds ++ x, rfl, rfl⟩
  | whole hd => exact hd.starts x
  | both hd _ =>
      rw [List.append_assoc]
      exact hd.starts _

/-! ### Texts in quotes -/

section Quotes

variable {quote c : Char}

/-- A backslash takes the character behind it along. -/
theorem textBody_escape (hc : c ≠ '\n') (s : List Char) :
    textBody quote ('\\' :: c :: s) =
      (textBody quote s).map fun q => ('\\' :: c :: q.1, q.2) := by
  rw [textBody]
  exact hc

/-- The quote ends the text. -/
theorem textBody_quote (hq : quote ≠ '\\') (s : List Char) :
    textBody quote (quote :: s) = some ([quote], s) := by
  rw [textBody, if_pos rfl]
  · exact fun _ e => absurd e hq
  · exact fun _ _ e => absurd e hq

/-- Any other character is part of the text. -/
theorem textBody_plain (hq : c ≠ quote) (hc : c ≠ '\\') (s : List Char) :
    textBody quote (c :: s) = (textBody quote s).map fun q => (c :: q.1, q.2) := by
  rw [textBody, if_neg hq, if_neg hc]
  · exact fun _ e => absurd e hc
  · exact fun _ _ e => absurd e hc

/-- The inside of a text in quotes. -/
inductive Inside (quote : Char) : List Char → Prop where
  | nil : Inside quote []
  | plain {c : Char} {t : List Char} (hq : c ≠ quote) (hc : c ≠ '\\') (h : Inside quote t) :
      Inside quote (c :: t)
  | escape {c : Char} {t : List Char} (hc : c ≠ '\n') (h : Inside quote t) :
      Inside quote ('\\' :: c :: t)

/-- What is taken up to the quote has no quote in it but behind a backslash. -/
theorem textBody_eq_some (hq : quote ≠ '\\') :
    textBody quote s = some (t, r) ↔ ∃ b, Inside quote b ∧ t = b ++ [quote] ∧ s = t ++ r := by
  constructor
  · intro h
    fun_induction textBody quote s generalizing t r with
    | case1 | case2 | case5 => cases h
    | case3 c s hc ih =>
        obtain ⟨q, hq, e⟩ := Option.map_eq_some_iff.mp h
        obtain ⟨rfl, rfl⟩ := Prod.mk.inj e
        obtain ⟨b, hb, e, rfl⟩ := ih hq
        exact ⟨'\\' :: c :: b, .escape hc hb, by simp [e], rfl⟩
    | case4 s =>
        obtain ⟨rfl, rfl⟩ := Prod.mk.inj (Option.some.inj h)
        exact ⟨[], .nil, rfl, rfl⟩
    | case6 c s _ _ hne hc ih =>
        obtain ⟨q, hq, e⟩ := Option.map_eq_some_iff.mp h
        obtain ⟨rfl, rfl⟩ := Prod.mk.inj e
        obtain ⟨b, hb, e, rfl⟩ := ih hq
        exact ⟨c :: b, .plain hne hc hb, by simp [e], rfl⟩
  · rintro ⟨b, hb, rfl, rfl⟩
    induction hb with
    | nil => exact textBody_quote hq r
    | plain hne hc _ ih =>
        simp only [List.cons_append, textBody_plain hne hc, ih, Option.map_some]
    | escape hc _ ih => simp only [List.cons_append, textBody_escape hc, ih, Option.map_some]

/-- A text is taken with its quotes. -/
theorem textIn_eq_some (hq : quote ≠ '\\') :
    textIn quote s = some (t, r) ↔
      ∃ b, Inside quote b ∧ t = quote :: b ++ [quote] ∧ s = t ++ r := by
  cases s with
  | nil =>
      refine iff_of_false (by simp [textIn]) ?_
      rintro ⟨b, -, rfl, e⟩
      cases e
  | cons c s =>
      simp only [textIn, Option.ite_none_right_eq_some, Option.map_eq_some_iff, Prod.exists,
        textBody_eq_some hq]
      constructor
      · rintro ⟨rfl, _, _, ⟨b, hb, rfl, rfl⟩, e⟩
        obtain ⟨rfl, rfl⟩ := Prod.mk.inj e
        exact ⟨b, hb, rfl, rfl⟩
      · rintro ⟨b, hb, rfl, e⟩
        obtain ⟨rfl, rfl⟩ := List.cons.inj e
        exact ⟨rfl, _, _, ⟨b, hb, rfl, rfl⟩, rfl⟩

end Quotes

/-- The first characters of texts in quotes. -/
def startsText (c : Char) : Bool := ['"', '\''].contains c

/-- A text in quotes of one kind or the other. -/
theorem quoted_eq_some (h : quoted s = some (t, r)) :
    ∃ quote b, startsText quote = true ∧ Inside quote b ∧ t = quote :: b ++ [quote] ∧
      s = t ++ r := by
  obtain ⟨p, hmem, hp⟩ := mem_of_oneOf h
  simp only [List.mem_cons, List.not_mem_nil, or_false] at hmem
  obtain rfl | rfl := hmem
  · obtain ⟨b, h'⟩ := (textIn_eq_some (by decide)).mp hp
    exact ⟨_, b, rfl, h'⟩
  · obtain ⟨b, h'⟩ := (textIn_eq_some (by decide)).mp hp
    exact ⟨_, b, rfl, h'⟩

/-- It is taken exactly. -/
theorem exact_quoted : quoted.Exact := by
  intro s t r h
  obtain ⟨-, -, -, -, -, hs⟩ := quoted_eq_some h
  exact hs

theorem starts_quoted : quoted.Starts startsText := by
  intro s t r h
  obtain ⟨quote, b, hq, -, rfl, -⟩ := quoted_eq_some h
  exact ⟨quote, b ++ [quote], rfl, hq⟩

end Token
end Trellis.Expr
