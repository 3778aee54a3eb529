import Trellis.Proofs.Syntax.Derivation
import Trellis.Proofs.Syntax.Separation

/-!
# Proofs — Syntax — Lexicon

`greedy` is the lexicon of the matchers: each lexeme is as much as its pattern takes in front of
what follows, and among several operators it is the first that fits.

* `greedy_space`: white space is as long as possible.
* `greedy_starts`: any other lexeme has a first character, which is one of its kind.
* `greedy_append`: any other lexeme stays one when a break is put behind.
-/

namespace Trellis.Expr

open Trellis.Text (isSpace)

/-- The binary operators of a level with their patterns, in the order in which they are tried. -/
def Tier.signs : Tier → List (Operator × Pattern)
  | comparison => Token.comparisons
  | sum        => Token.sums
  | product    => Token.products

/-- What a connective is written as. -/
def Connective.pattern : Connective → Pattern
  | disj => Token.disjunctive
  | conj => Token.conjunctive

/-- The first operator that fits, with what it takes and the rest. -/
def Token.firstSign (signs : List (Operator × Pattern)) (s : List Char) :
    Option (Operator × List Char × List Char) :=
  signs.findSome? fun c => (c.2 s).map (c.1, ·)

/-- Lexemes as the matchers take them. -/
def greedy : Lexicon
  | .space, w, r        => Token.space.Takes w r
  | .symbol c, t, _     => t = [c]
  | .number, t, r       => Token.number.Takes t r
  | .text, t, r         => Token.quoted.Takes t r
  | .truth, t, r        => Token.truthWord.Takes t r
  | .null, t, r         => Token.nullWord.Takes t r
  | .name, t, r         => Token.reservedWord (t ++ r) = none ∧ Token.identifier.Takes t r
  | .denial, t, r       => Token.denial.Takes t r
  | .connective c, t, r => c.pattern.Takes t r
  | .sign i o, t, r     => Token.firstSign i.signs (t ++ r) = some (o, t, r)

/-- A symbol is written as its character. -/
@[simp] theorem greedy_symbol {c : Char} {t r : List Char} : greedy (.symbol c) t r ↔ t = [c] :=
  Iff.rfl

/-! ### White space -/

/-- White space is written as nothing else, and goes on as far as it can. -/
theorem greedy_space {w r : List Char} :
    greedy .space w r ↔ (∀ c ∈ w, isSpace c = true) ∧ ∀ c ∈ r.head?, isSpace c = false := by
  constructor
  · intro h
    obtain ⟨ht, hd⟩ := Prod.mk.inj (Option.some.inj h)
    refine ⟨?_, fun c hc => ?_⟩
    · rw [← ht]
      exact List.all_eq_true.mp List.all_takeWhile
    · have := List.head?_dropWhile_not isSpace (w ++ r)
      rw [hd, hc] at this
      exact this
  · rintro ⟨hw, hr⟩
    obtain ⟨ht, hd⟩ := Token.span_append hw hr
    exact congrArg some (Prod.ext ht hd)

/-! ### Binary operators -/

/-- The first characters of the binary operators of a level. -/
def Tier.starts : Tier → Char → Bool
  | comparison, c => ['=', '!', '<', '>', 'n', 'i'].contains c
  | sum, c        => ['+', '-'].contains c
  | product, c    => ['*', '/', '%'].contains c

/-- The signs of a tier take what they are, and start with one of its characters. -/
theorem Tier.exact_starts (i : Tier) : ∀ c ∈ i.signs, c.2.Exact ∧ c.2.Starts i.starts := by
  intro c hc
  have symbol : ∀ {t : List Char}, t.head?.any i.starts = true →
      (Token.exactly t).Exact ∧ (Token.exactly t).Starts i.starts :=
    fun h => ⟨Token.exact_exactly _, Token.starts_exactly h⟩
  cases i with
  | comparison =>
      simp only [signs, Token.comparisons, List.mem_cons, List.not_mem_nil, or_false] at hc
      rcases hc with rfl | rfl | rfl | rfl | rfl | rfl | rfl | rfl | rfl | rfl
      any_goals exact symbol rfl
      · exact ⟨Token.exact_notInWords, Token.starts_notInWords rfl⟩
      · exact ⟨Token.exact_word _, Token.starts_word rfl⟩
  | sum =>
      simp only [signs, Token.sums, List.map_cons, List.map_nil, List.mem_cons, List.not_mem_nil,
        or_false] at hc
      rcases hc with rfl | rfl <;> exact symbol rfl
  | product =>
      simp only [signs, Token.products, List.map_cons, List.map_nil, List.mem_cons,
        List.not_mem_nil, or_false] at hc
      rcases hc with rfl | rfl | rfl <;> exact symbol rfl

/-- The sign that is found is one of those that are tried, and fits. -/
theorem mem_of_firstSign {signs : List (Operator × Pattern)} {s t r : List Char} {o : Operator}
    (h : Token.firstSign signs s = some (o, t, r)) : ∃ p, (o, p) ∈ signs ∧ p s = some (t, r) := by
  obtain ⟨⟨o', p⟩, hmem, hp⟩ := List.exists_of_findSome?_eq_some h
  obtain ⟨q, hq, e⟩ := Option.map_eq_some_iff.mp hp
  obtain ⟨rfl, rfl⟩ := Prod.mk.inj e
  exact ⟨p, hmem, hq⟩

/-- None is found just if none fits. -/
theorem firstSign_eq_none {signs : List (Operator × Pattern)} {s : List Char} :
    Token.firstSign signs s = none ↔ ∀ c ∈ signs, c.2 s = none := by
  simp [Token.firstSign, List.findSome?_eq_none_iff]

/-- What the matcher of operators finds. -/
theorem Matcher.found_operator (signs : List (Operator × Pattern)) (c : Cursor) :
    (Rule.operator signs c).found =
      (Token.firstSign signs c.rest).map fun x => (x.1, c.past x.2.1.length x.2.2) := by
  rw [Rule.operator, found_named]
  induction signs with
  | nil => rfl
  | cons x signs ih =>
      rw [List.map_cons, found_firstOf_cons, ih]
      simp only [Token.firstSign, List.findSome?_cons, found_bind, found_token, found_pure]
      cases x.2 c.rest <;> rfl

/-! ### First characters -/

/-- The first characters of connectives. -/
def Connective.starts : Connective → Char → Bool
  | disj => Token.startsDisjunctive
  | conj => Token.startsConjunctive

/-- The first characters of lexemes other than white space. -/
def Lexeme.starts : Lexeme → Char → Bool
  | space        => fun _ => false
  | symbol c     => fun a => a == c
  | number       => Token.startsNumber
  | text         => Token.startsText
  | truth        => Token.startsTruth
  | null         => Token.startsNull
  | name         => Token.startsName
  | denial       => Token.startsDenial
  | connective c => c.starts
  | sign i _     => i.starts

/-- The patterns of connectives take what they are, and start with one of their characters. -/
theorem Connective.exact_starts (c : Connective) :
    c.pattern.Exact ∧ c.pattern.Starts c.starts := by
  cases c with
  | disj => exact ⟨Token.exact_disjunctive, Token.starts_disjunctive⟩
  | conj => exact ⟨Token.exact_conjunctive, Token.starts_conjunctive⟩

/-- A lexeme other than white space starts with a character of its kind. -/
theorem greedy_starts {x : Lexeme} {t r : List Char} (hx : x ≠ .space) (h : greedy x t r) :
    ∃ c t', t = c :: t' ∧ x.starts c = true := by
  cases x with
  | space => exact absurd rfl hx
  | symbol c => exact ⟨c, [], h, beq_self_eq_true c⟩
  | number => exact Token.starts_number h
  | text => exact Token.starts_quoted h
  | truth => exact Token.starts_truthWord h
  | null => exact Token.starts_nullWord h
  | name => exact Token.starts_identifier h.2
  | denial => exact Token.starts_denial h
  | connective c => exact c.exact_starts.2 h
  | sign i o =>
      obtain ⟨p, hmem, hp⟩ := mem_of_firstSign h
      exact (i.exact_starts _ hmem).2 hp

/-! ### Breaks -/

section Breaks

variable {s t r u : List Char} {o : Operator} {signs : List (Operator × Pattern)}

/-- Signs that no break can change are found alike in front of every break. -/
theorem firstSign_settled (hs : ∀ c ∈ signs, c.2.Settled) (hu : Breaks u) :
    Token.firstSign signs (s ++ u) =
      (Token.firstSign signs s).map fun x => (x.1, extend u x.2) := by
  induction signs with
  | nil => rfl
  | cons c signs ih =>
      simp only [Token.firstSign, List.findSome?_cons] at ih ⊢
      rw [hs c List.mem_cons_self s hu]
      cases c.2 s with
      | none => exact ih fun c hc => hs c (List.mem_cons_of_mem _ hc)
      | some q => rfl

/-- Signs of punctuation without breaks are such signs. -/
theorem settled_symbols {os : List Operator}
    (h : ∀ o ∈ os, ∀ c ∈ o.symbol.toList, isBreak c = false) :
    ∀ c ∈ os.map fun o => (o, Token.exactly o.symbol.toList), c.2.Settled := by
  intro c hc
  obtain ⟨o, ho, rfl⟩ := List.mem_map.mp hc
  exact Token.settled_exactly (h o ho)

/-- The symbols among the comparisons. -/
theorem settled_comparisons : ∀ c ∈ Token.comparisons.take 8, c.2.Settled := by
  intro c hc
  simp only [Token.comparisons, List.take_succ_cons, List.take_zero, List.mem_cons,
    List.not_mem_nil, or_false] at hc
  rcases hc with rfl | rfl | rfl | rfl | rfl | rfl | rfl | rfl <;>
    exact Token.settled_exactly (by decide)

/-- The words `not in` are found in front of every break. -/
theorem notInWords_append (hu : Breaks u) (h : Token.notInWords s = some (t, r)) :
    Token.notInWords (s ++ u) = some (t, r ++ u) := by
  obtain ⟨w, hne, hw, rfl, rfl, hr⟩ := Token.notInWords_eq_some.mp h
  refine Token.notInWords_eq_some.mpr ⟨w, hne, hw, rfl, by simp, ?_⟩
  rwa [Token.endsWord_breaks hu]

/-- What is found of a comparison does not depend on what stands behind a break. -/
theorem firstSign_comparisons_append (hu : Breaks u)
    (h : Token.firstSign Token.comparisons s = some (o, t, r)) :
    Token.firstSign Token.comparisons (s ++ u) = some (o, t, r ++ u) := by
  have split (s : List Char) : Token.firstSign Token.comparisons s =
      (Token.firstSign (Token.comparisons.take 8) s).or
        (Token.firstSign [(.notIn, Token.notInWords), (.isIn, Token.word "in")] s) := by
    show List.findSome? _ (Token.comparisons.take 8 ++ [_, _]) = _
    exact List.findSome?_append
  rw [split] at h ⊢
  rw [firstSign_settled settled_comparisons hu]
  cases hsym : Token.firstSign (Token.comparisons.take 8) s with
  | some x =>
      rw [hsym] at h
      obtain rfl := Option.some.inj h
      rfl
  | none =>
      rw [hsym] at h
      simp only [Option.map_none, Option.none_or, Token.firstSign, List.findSome?_cons] at h ⊢
      cases hwords : Token.notInWords s with
      | some q =>
          rw [hwords] at h
          obtain ⟨rfl, rfl⟩ := Prod.mk.inj (Option.some.inj h)
          rw [notInWords_append hu hwords]
          rfl
      | none =>
          -- The text starts with the word "in", so that the two words do not fit either way.
          rw [hwords] at h
          cases hword : Token.word "in" s with
          | none => simp [hword] at h
          | some q =>
              rw [hword] at h
              obtain ⟨rfl, rfl⟩ := Prod.mk.inj (Option.some.inj h)
              obtain ⟨rfl, rfl, -⟩ := Token.word_eq_some.mp hword
              have hnone : Token.notInWords ("in".toList ++ r ++ u) = none := rfl
              rw [hnone, Token.settled_word (by decide) _ hu, hword]
              rfl

/-- So it is with the signs of every tier. -/
theorem Tier.firstSign_append (i : Tier) (hu : Breaks u)
    (h : Token.firstSign i.signs s = some (o, t, r)) :
    Token.firstSign i.signs (s ++ u) = some (o, t, r ++ u) := by
  cases i with
  | comparison => exact firstSign_comparisons_append hu h
  | sum =>
      have hs : ∀ c ∈ Token.sums, c.2.Settled := settled_symbols (by decide)
      exact (firstSign_settled hs hu).trans (congrArg _ h)
  | product =>
      have hs : ∀ c ∈ Token.products, c.2.Settled := settled_symbols (by decide)
      exact (firstSign_settled hs hu).trans (congrArg _ h)

/-- A lexeme other than white space stays one when a break is put behind. -/
theorem greedy_append {x : Lexeme} (hx : x ≠ .space) (hu : Breaks u) (h : greedy x t r) :
    greedy x t (r ++ u) := by
  -- the patterns of words and numbers look ahead, but not past a break
  have settled {p : Pattern} (hp : p.Settled) (h : p.Takes t r) : p.Takes t (r ++ u) := by
    rw [Pattern.Takes, ← List.append_assoc, hp _ hu, show p (t ++ r) = _ from h]
    rfl
  cases x with
  | space => exact absurd rfl hx
  | symbol c => exact h
  | number => exact settled Token.settled_number h
  | text =>
      rw [greedy, Pattern.Takes, ← List.append_assoc]
      exact Token.quoted_append u h
  | truth => exact settled Token.settled_truthWord h
  | null => exact settled Token.settled_nullWord h
  | name =>
      refine ⟨?_, settled Token.settled_identifier h.2⟩
      rw [← List.append_assoc, Token.settled_reservedWord _ hu, h.1]
      rfl
  | denial => exact settled Token.settled_denial h
  | connective c =>
      cases c with
      | disj => exact settled Token.settled_disjunctive h
      | conj => exact settled Token.settled_conjunctive h
  | sign i o =>
      show Token.firstSign i.signs (t ++ (r ++ u)) = _
      rw [← List.append_assoc]
      exact i.firstSign_append hu h

end Breaks

end Trellis.Expr
