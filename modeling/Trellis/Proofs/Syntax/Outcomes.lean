import Trellis.Proofs.Evaluation.Cache
import Trellis.Proofs.Syntax.Context
import Trellis.Proofs.Syntax.Numbers
import Trellis.Proofs.Syntax.Settled

/-!
# Proofs — Syntax — Outcomes

The outcomes of compilation.  A text that the grammar does not take as a whole is a mistake at the
position it is given with.  A text that the grammar takes is built into an expression, and the one
step of that which can fail is the reading of a number.

* `sign_words`: an operator is the one that its words are the symbol of.
* `hasUnreadable_image`: a derivation can be built into an expression if and only if all of its
  numbers can be read.
* `compile_outcome`: all outcomes, whatever was compiled before.
-/

namespace Trellis.Text

variable {u w r : List Char}

/-- The first word. -/
theorem wordsAux_cons (hu : ∀ c ∈ u, isBlank c = true) (hne : w ≠ [])
    (hw : ∀ c ∈ w, isBlank c = false) (hr : ∀ c ∈ r.head?, isBlank c = true) (fuel limit : Nat) :
    wordsAux (fuel + 1) (limit + 1) (u ++ (w ++ r)) = w :: wordsAux fuel limit r := by
  obtain ⟨c, w, rfl⟩ := List.exists_cons_of_ne_nil hne
  have hdrop : dropLeading isBlank (u ++ (c :: w ++ r)) = c :: w ++ r := by
    rw [dropLeading, List.dropWhile_append_of_pos hu, List.cons_append,
      List.dropWhile_cons_of_neg (by simp [hw c List.mem_cons_self])]
  obtain ⟨htake, hrest⟩ := Expr.Token.span_append (p := (!isBlank ·)) (t := c :: w) (r := r)
    (fun a ha => by simp [hw a ha]) (fun a ha => by simp [hr a ha])
  rw [wordsAux, hdrop, List.cons_append]
  simp only [List.cons_append] at htake hrest
  simp [htake, hrest]

end Trellis.Text

namespace Trellis.Expr

open Trellis.Text (isBlank isSpace words)

/-! ### Operators -/

/-- The words "not" and "in" are two, whatever white space is between them. -/
theorem words_notIn {w : List Char} (hne : w ≠ []) (hw : ∀ c ∈ w, isSpace c = true) (n : Nat) :
    words (n + 2) ("not".toList ++ w ++ "in".toList) = ["not".toList, "in".toList] := by
  have hblank : ∀ c ∈ w, isBlank c = true := fun c hc => Text.isBlank_of_isSpace (hw c hc)
  have hhead : ∀ c ∈ (w ++ "in".toList).head?, isBlank c = true := by
    obtain ⟨c, w, rfl⟩ := List.exists_cons_of_ne_nil hne
    rintro a ⟨⟩
    exact hblank c List.mem_cons_self
  have hlen : ("not".toList ++ w ++ "in".toList).length + 1 = w.length + 4 + 2 := by
    simp
  have hfirst := Text.wordsAux_cons (u := []) nofun (w := "not".toList) (by decide) (by decide)
    hhead (w.length + 4 + 1) (n + 1)
  have hsecond := Text.wordsAux_cons hblank (w := "in".toList) (by decide) (by decide) (r := []) nofun
    (w.length + 4) n
  rw [List.append_nil] at hsecond
  rw [words, hlen, List.append_assoc]
  exact hfirst.trans (congrArg _ hsecond)

/-- The words of an operator, with a blank between each two, are its symbol. -/
theorem sign_words {i : Tier} {o : Operator} {t r : List Char} (h : greedy (.sign i o) t r) :
    [' '].intercalate (words t.length t) = o.symbol.toList := by
  obtain ⟨p, hmem, hp⟩ := mem_of_firstSign h
  have symbol {o : Operator} {u : List Char} (hu : Token.exactly u (t ++ r) = some (t, r))
      (ho : [' '].intercalate (words u.length u) = o.symbol.toList) :
      [' '].intercalate (words t.length t) = o.symbol.toList := by
    obtain ⟨rfl, -⟩ := Token.exactly_eq_some.mp hu
    exact ho
  cases i with
  | comparison =>
      simp only [Tier.signs, Token.comparisons, List.mem_cons, List.not_mem_nil, or_false,
        Prod.mk.injEq] at hmem
      rcases hmem with ⟨rfl, rfl⟩ | ⟨rfl, rfl⟩ | ⟨rfl, rfl⟩ | ⟨rfl, rfl⟩ | ⟨rfl, rfl⟩ | ⟨rfl, rfl⟩ |
        ⟨rfl, rfl⟩ | ⟨rfl, rfl⟩ | ⟨rfl, rfl⟩ | ⟨rfl, rfl⟩
      any_goals exact symbol hp (by decide)
      · -- `not in` alone may have any white space between its words
        obtain ⟨w, hne, hw, rfl, -, -⟩ := Token.notInWords_eq_some.mp hp
        rw [show ("not".toList ++ w ++ "in".toList).length = w.length + 3 + 2 by simp,
          words_notIn hne hw]
        rfl
      · obtain ⟨rfl, -⟩ := Token.word_eq_some.mp hp
        decide
  | sum =>
      simp only [Tier.signs, Token.sums, List.map_cons, List.map_nil, List.mem_cons,
        List.not_mem_nil, or_false, Prod.mk.injEq] at hmem
      rcases hmem with ⟨rfl, rfl⟩ | ⟨rfl, rfl⟩ <;> exact symbol hp (by decide)
  | product =>
      simp only [Tier.signs, Token.products, List.map_cons, List.map_nil, List.mem_cons,
        List.not_mem_nil, or_false, Prod.mk.injEq] at hmem
      rcases hmem with ⟨rfl, rfl⟩ | ⟨rfl, rfl⟩ | ⟨rfl, rfl⟩ <;> exact symbol hp (by decide)

/-! ### Numbers -/

/-- All numbers of the derivation can be read. -/
def Tree.Readable {f : Form} (d : Tree f) : Prop :=
  ∀ t, (Lexeme.number, t) ∈ d.lexemes → Token.Readable t

/-- A lexeme of a writing stands in front of something. -/
theorem Lexicon.Allows.of_mem {L : Lexicon} {ls : Writing} {k : List Char} (h : L.Allows ls k)
    {x : Lexeme} {t : List Char} (hx : (x, t) ∈ ls) : ∃ r, L x t r := by
  obtain ⟨front, back, rfl⟩ := List.append_of_mem hx
  exact ⟨_, (Lexicon.allows_cons.mp (Lexicon.allows_append.mp h).2).1⟩

/-- Numbers are the only lexemes that may be impossible to read. -/
theorem isUnreadableMark_lexeme {x : Lexeme} {t r : List Char} (h : greedy x t r) :
    (x.marks t).any isUnreadableMark = true ↔ x = .number ∧ ¬Token.Readable t := by
  cases x with
  | number =>
      rw [← Token.numberLiteral_eq_unreadable h, Lexeme.marks, List.any_cons, List.any_nil,
        Bool.or_false, isUnreadableMark_mark]
      cases Token.numberLiteral t <;> simp [Literal.isUnreadable]
  | symbol c =>
      rw [Lexeme.marks]
      split <;> simp [isUnreadableMark]
  | _ => simp [Lexeme.marks, isUnreadableMark, Literal.isUnreadable]

/-- **What building can fail at.**  A derivation stands for an expression with a literal that cannot
be read if and only if one of its numbers cannot. -/
theorem hasUnreadable_image {d : Tree (.one (.level .expr))} {k : List Char}
    (hr : d.Reads greedy k) : d.image.hasUnreadable = true ↔ ¬d.Readable := by
  have hmarks : d.image.marks = d.lexemes.marks := d.marks_image
  rw [hasUnreadable_eq, hmarks, Writing.marks, List.any_flatMap, List.any_eq_true, Tree.Readable]
  simp only [not_forall]
  constructor
  · rintro ⟨⟨x, t⟩, hx, hu⟩
    obtain ⟨r, hg⟩ := hr.of_mem hx
    obtain ⟨rfl, ht⟩ := (isUnreadableMark_lexeme hg).mp hu
    exact ⟨t, hx, ht⟩
  · rintro ⟨t, hx, ht⟩
    obtain ⟨r, hg⟩ := hr.of_mem hx
    exact ⟨(.number, t), hx, (isUnreadableMark_lexeme hg).mpr ⟨rfl, ht⟩⟩

/-! ### Outcomes -/

/-- A text that is not matched is a mistake with the position that it is given. -/
theorem mistake_of_not_matches {t : String} (h : ∀ x, ¬Matches t.toList x) (position : Value) :
    ∃ m c, compile t = .error m ∧ m.fault t position = .template c position ∧
      c.kind = .grammar := by
  rw [compile, compileChars_of_not_matches h]
  split
  · exact ⟨.empty, .emptyExpression, rfl, rfl, rfl⟩
  · exact ⟨.invalid _, .invalidExpression t _, rfl, rfl, rfl⟩

/-- **The outcomes of compilation**, by an evaluator that was asked anything before.  A text that the
grammar takes as a whole has a derivation, in which the words of every operator are its symbol.  The
text is compiled to what the derivation stands for if all numbers in it can be read: if their digits
have a value and no whole number has too many of them.  Otherwise it fails without a position.  A
text that the grammar does not take as a whole is a complaint about the syntax with the position that
it is given.  Nothing is remembered of a text that is not compiled. -/
theorem compile_outcome (builtins : Scope) (h : Heap) (before : List Query) (t : String)
    (position : Value) :
    let e := ((Evaluator.fresh builtins).after h before).1
    (∀ x, Matches t.toList x →
      ∃ d : Tree (.one (.level .expr)), d.spelled = t.toList ∧ d.Reads greedy [] ∧ d.image = x ∧
        (∀ i o w, (.sign i o, w) ∈ d.lexemes →
          [' '].intercalate (words w.length w) = o.symbol.toList) ∧
        (d.Readable → (e.compile t).1 = .ok x) ∧
        (¬d.Readable → e.compile t = (.error .unreadable, e) ∧
          Mistake.unreadable.fault t position = .unreadableLiteral)) ∧
    ((∀ x, ¬Matches t.toList x) →
      ∃ m c, e.compile t = (.error m, e) ∧ m.fault t position = .template c position ∧
        c.kind = .grammar) := by
  intro e
  have he : Evaluator.Remembers builtins (before.map Query.text) e :=
    (Evaluator.remembers_fresh builtins).after h before
  have failed {m : Mistake} (hm : compile t = .error m) : e.compile t = (.error m, e) :=
    Prod.ext ((he.compile_fst t).trans hm) (Evaluator.Remembers.compile_snd_of_error hm)
  constructor
  · intro x hx
    obtain ⟨d, hs, hr, rfl⟩ := matches_iff_derivation.mp hx
    have hc := compileChars_of_matches hx
    refine ⟨d, hs, hr, rfl, fun i o w hw => ?_, fun hread => ?_, fun hread => ?_⟩
    · obtain ⟨r, hg⟩ := hr.of_mem hw
      exact sign_words hg
    · -- readability of the derivation is that of what it stands for
      have hu : ¬d.image.hasUnreadable = true := fun hu => (hasUnreadable_image hr).mp hu hread
      rw [if_neg hu] at hc
      exact (he.compile_fst t).trans hc
    · rw [if_pos ((hasUnreadable_image hr).mpr hread)] at hc
      exact ⟨failed hc, rfl⟩
  · intro hnone
    obtain ⟨m, c, hm, hf, hk⟩ := mistake_of_not_matches hnone position
    exact ⟨m, c, failed hm, hf, hk⟩

/-- A numeral that is too long is matched, but it is not compiled, and the failure is no complaint and
has no position. -/
theorem compile_long_numeral {t : String} (h : Decimal.IsNumeral t.toList)
    (hlong : Decimal.digitLimit < t.toList.length) :
    (∃ x, Matches t.toList x) ∧ (∀ x, compile t ≠ .ok x) ∧
      ∃ m, compile t = .error m ∧ (m.fault t .none).name = "VisitationError" ∧
        ∀ c, m.fault t .none ≠ .template c .none := by
  have hnumber : Token.number.Takes t.toList [] := Token.number_of_isNumeral h
  have hliteral : Token.numberLiteral t.toList = .unreadable := by
    refine (Token.numberLiteral_eq_unreadable hnumber).mpr fun hr => ?_
    exact Nat.not_le.mpr hlong (hr.short (Token.isFloating_of_isNumeral h))
  have hreading := Reading.number hnumber
  rw [hliteral] at hreading
  have hm : Matches t.toList (.literal .unreadable) := matches_of_reading_nth (r := 9) hreading
  have hc : compile t = .error .unreadable := compileChars_of_matches hm
  refine ⟨⟨_, hm⟩, fun x hx => ?_, .unreadable, hc, rfl, fun c hf => ?_⟩
  · rw [hc] at hx
    cases hx
  · cases hf

/-- A text of ones is a numeral. -/
theorem isNumeral_replicate {n : Nat} (h : 0 < n) : Decimal.IsNumeral (List.replicate n '1') where
  ne_nil := List.ne_nil_of_length_pos (by rwa [List.length_replicate])
  digits c hc := by
    rw [(List.mem_replicate.mp hc).2]
    decide

/-- The grammar takes a number of 4301 digits, but it is not compiled. -/
theorem compile_numeral_unreadable :
    (∃ x, Matches (String.ofList (List.replicate 4301 '1')).toList x) ∧
      (∀ x, compile (String.ofList (List.replicate 4301 '1')) ≠ .ok x) ∧
      ∃ m, compile (String.ofList (List.replicate 4301 '1')) = .error m ∧
        (m.fault (String.ofList (List.replicate 4301 '1')) .none).name = "VisitationError" ∧
        ∀ c, m.fault (String.ofList (List.replicate 4301 '1')) .none ≠ .template c .none := by
  have hnumeral : Decimal.IsNumeral (String.ofList (List.replicate 4301 '1')).toList := by
    rw [String.toList_ofList]
    exact isNumeral_replicate (by decide)
  have hlong : Decimal.digitLimit < (String.ofList (List.replicate 4301 '1')).toList.length := by
    rw [String.toList_ofList, List.length_replicate]
    decide
  exact compile_long_numeral hnumeral hlong

end Trellis.Expr
