import Trellis.Proofs.Evaluation.Cache
import Trellis.Proofs.Syntax.Context
import Trellis.Proofs.Syntax.Offsets

/-!
# Proofs — Syntax — Columns

Where a mistake in an expression is reported.

* `LineAt s p front line`: the offset `p` of the text `s` is in the line `line`, which has `front`
  before it.  Every offset is in one line, and its column counts from the start of that line
  (`columnAt_of_lineAt`).
* `mistakeOffset_cases`: the offset of a mistake is the end of the part that was taken, which is the
  text of a derivation, or the furthest failure if no part was.  It lies in the text.
* `parse_closed`: in front of a closing bracket or a comma, exactly what compiles alone is taken.
* `syntax_error_column`: the column of a mistake.
-/

namespace Trellis.Expr

open Matcher

/-! ### Lines -/

/-- The offset `p` of the text is in a line, which has `front` before it. -/
structure LineAt (s : List Char) (p : Nat) (front line : List Char) : Prop where
  text : ∃ back, s = front ++ (line ++ back) ∧ ∀ c ∈ back.head?, c = '\n'
  starts : ∀ c ∈ front.getLast?, c = '\n'
  unbroken : '\n' ∉ line
  first : front.length ≤ p
  last : p ≤ front.length + line.length

variable {s t u front line : List Char} {p : Nat}

/-- A column is counted from the start of the line. -/
theorem columnAt_of_lineAt (h : LineAt s p front line) : columnAt s p = p - front.length + 1 := by
  obtain ⟨back, rfl, -⟩ := h.text
  have hfirst := h.first
  have hlast := h.last
  have htake : (front ++ (line ++ back)).take p = front ++ line.take (p - front.length) := by
    rw [List.take_append, List.take_of_length_le hfirst, List.take_append,
      Nat.sub_eq_zero_of_le (by omega : p - front.length ≤ line.length), List.take_zero,
      List.append_nil]
  have hline : ∀ c ∈ (line.take (p - front.length)).reverse, decide (c ≠ '\n') = true := by
    intro c hc
    have hmem := List.mem_of_mem_take (List.mem_reverse.mp hc)
    exact decide_eq_true fun e => h.unbroken (e ▸ hmem)
  have hfront : ∀ c ∈ front.reverse.head?, decide (c ≠ '\n') = false := by
    intro c hc
    rw [List.head?_reverse] at hc
    simpa using h.starts c hc
  obtain ⟨hspan, -⟩ := Token.span_append hline hfront
  rw [columnAt, htake, List.reverse_append, hspan, List.length_reverse, List.length_take]
  omega

/-- Every offset is in a line. -/
theorem exists_lineAt (hp : p ≤ s.length) : ∃ front line, LineAt s p front line := by
  let q (c : Char) : Bool := decide (c ≠ '\n')
  have hq {l : List Char} : '\n' ∉ l.takeWhile q := fun hmem => by
    have := List.all_eq_true.mp (List.all_takeWhile (p := q) (l := l)) _ hmem
    simp [q] at this
  -- What is left of the text in front of the offset, read backwards, and of the text behind it.
  refine ⟨((s.take p).reverse.dropWhile q).reverse,
    ((s.take p).reverse.takeWhile q).reverse ++ (s.drop p).takeWhile q, ?_, ?_, ?_, ?_, ?_⟩
  · refine ⟨(s.drop p).dropWhile q, ?_, fun c hc => ?_⟩
    · rw [List.append_assoc, List.takeWhile_append_dropWhile, ← List.append_assoc,
        ← List.reverse_append, List.takeWhile_append_dropWhile, List.reverse_reverse,
        List.take_append_drop]
    · have := List.head?_dropWhile_not q (s.drop p)
      rw [hc] at this
      simpa [q] using this
  · intro c hc
    rw [List.getLast?_reverse] at hc
    have := List.head?_dropWhile_not q (s.take p).reverse
    rw [hc] at this
    simpa [q] using this
  · rw [List.mem_append, List.mem_reverse]
    exact fun h => h.elim hq hq
  all_goals
    have hlen := congrArg List.length (List.takeWhile_append_dropWhile (p := q)
      (l := (s.take p).reverse))
    simp only [List.length_append, List.length_reverse, List.length_take] at hlen ⊢
    omega

/-! ### Offsets of mistakes -/

/-- What the grammar takes is the text of a derivation. -/
theorem parse_eq_some {e : Expr} {k : Cursor} (h : (parse s).found = some (e, k)) :
    ∃ d : Tree (.one (.level .expr)), s = d.spelled ++ k.rest ∧ d.Reads greedy k.rest ∧
      k.offset = d.spelled.length := by
  obtain ⟨d, -, hs, hr⟩ := (sound_rules _).expr h
  obtain ⟨t, ht, ho⟩ := (within_rules _).expr.reaches h
  have hst : d.spelled = t := List.append_cancel_right (hs.symm.trans ht)
  refine ⟨d, hs, hr, ?_⟩
  rw [ho, hst]
  exact Nat.zero_add _

/-- The offset of a mistake. -/
theorem mistakeOffset_cases (s : List Char) :
    (∃ (d : Tree (.one (.level .expr))) (k : List Char), s = d.spelled ++ k ∧ d.Reads greedy k ∧
      (parse s).mistakeOffset = d.spelled.length) ∨
    ((parse s).found = none ∧ (parse s).mistakeOffset = (parse s).furthest) := by
  unfold Reply.mistakeOffset
  split
  · next e k h =>
    obtain ⟨d, hs, hr, ho⟩ := parse_eq_some h
    exact .inl ⟨d, k.rest, hs, hr, ho⟩
  · next h => exact .inr ⟨h, rfl⟩

/-- A mistake is in the text or at its end. -/
theorem mistakeOffset_le (s : List Char) : (parse s).mistakeOffset ≤ s.length := by
  rcases mistakeOffset_cases s with ⟨d, k, hs, -, hp⟩ | ⟨-, hp⟩
  · have := congrArg List.length hs
    rw [List.length_append] at this
    omega
  · rw [hp]
    have := (within_rules (s.length + 1)).expr.furthest (.ofText s)
    rwa [Cursor.limit, Cursor.ofText, Nat.zero_add] at this

/-! ### Closed parts -/

/-- In front of a closing bracket or a comma, exactly what compiles alone is taken. -/
theorem parse_closed {e : Expr} {c : Char} (h : compileChars t = .ok e)
    (hc : c ∈ [')', ']', '\x7d', ',']) (u : List Char) :
    (parse (t ++ c :: u)).found = some (e, ⟨t.length, c :: u⟩) := by
  have hclose : isBreak c = true ∧ Text.isSpace c = false ∧ rank c ≤ 1 := by
    revert c
    decide
  -- Such a character closes every part of an expression, so what is taken ends in front of it.
  obtain ⟨hbreak, hspace, hrank⟩ := hclose
  obtain ⟨d, rfl, rfl, hr⟩ := reading_of_compileChars h (closes_cons (u := u) hbreak hspace)
  have spans : Spans (rules ((d.spelled ++ c :: u).length + 1)).expr d.spelled d.image (c :: u) :=
    d.isFound rfl (by simp) hr ((follows_cons hspace).mpr hrank)
  have := spans 0
  rwa [Nat.zero_add] at this

/-- Not all of such a text is taken. -/
theorem not_matches_closed {e : Expr} {c : Char} (h : compileChars t = .ok e)
    (hc : c ∈ [')', ']', '\x7d', ',']) (u : List Char) (x : Expr) : ¬Matches (t ++ c :: u) x := by
  rintro ⟨n, hf⟩
  rw [parse_closed h hc] at hf
  cases hf

/-- Columns in the first line. -/
theorem columnAt_length (ht : '\n' ∉ t) (r : List Char) :
    columnAt (t ++ r) t.length = t.length + 1 := by
  have hself : t.reverse.takeWhile (· ≠ '\n') = t.reverse := by
    refine List.takeWhile_eq_self_iff.mpr fun c hc => decide_eq_true fun e => ht ?_
    rwa [e, List.mem_reverse] at hc
  rw [columnAt, List.take_left, hself, List.length_reverse]

/-- The mistake is where the part that compiles alone ends. -/
theorem compileChars_closed {e : Expr} {c : Char} (h : compileChars t = .ok e) (ht : '\n' ∉ t)
    (hc : c ∈ [')', ']', '\x7d', ',']) (u : List Char) :
    compileChars (t ++ c :: u) = .error (.invalid (t.length + 1)) := by
  have hblank : ¬(t ++ c :: u).all Text.isBlank = true := by
    have := (compileChars_eq_ok.mp h).1.not_blank
    simp [this]
  have hoffset : (parse (t ++ c :: u)).mistakeOffset = t.length := by
    rw [Reply.mistakeOffset, parse_closed h hc]
  rw [compileChars_of_not_matches (not_matches_closed h hc u), if_neg hblank, hoffset,
    columnAt_length ht]

end Trellis.Expr

namespace Trellis

open Trellis.Expr (Matches Mistake LineAt parse)

/-! ### Columns -/

/-- Compiling the text is a complaint about it with a column and a position, and nothing is
remembered. -/
def Evaluator.Rejects (e : Evaluator) (s : String) (position : Value) (column : Nat) : Prop :=
  ∃ m : Mistake, e.compile s = (.error m, e) ∧
    m.fault s position = .template (.invalidExpression s column) position

/-- A text that does not compile is rejected with its column, whatever has been asked before. -/
theorem Evaluator.Remembers.rejects {builtins : Scope} {texts : List String} {e : Evaluator}
    (he : Remembers builtins texts e) {s : String} {column : Nat}
    (h : Expr.compile s = .error (.invalid column)) (position : Value) :
    e.Rejects s position column :=
  ⟨.invalid column, Prod.ext ((he.compile_fst s).trans h) (compile_snd_of_error h), rfl⟩

/-- **The column of a mistake**, by an evaluator that was asked anything before.

* A text of one line that compiles is put in front of a closing bracket or a comma and of anything
  else.  The column that is reported is the one behind that text.
* A text is not blank and the grammar does not take it as a whole.  The mistake is at the end of the
  part that was taken, or at the furthest failure if no part was.  That offset lies in the text, and
  the column that is reported counts from the start of its line, up to the one behind the line. -/
theorem syntax_error_column (builtins : Scope) (h : Heap) (before : List Query) (position : Value) :
    let e := ((Evaluator.fresh builtins).after h before).1
    (∀ (t u : String) (c : Char) (x : Expr), (e.compile t).1 = .ok x → '\n' ∉ t.toList →
      c ∈ [')', ']', '\x7d', ','] →
        e.Rejects (t ++ String.singleton c ++ u) position (t.length + 1)) ∧
    ∀ s : String, s.toList.all Text.isBlank = false → (∀ x, ¬Matches s.toList x) →
      let p := (parse s.toList).mistakeOffset
      p ≤ s.length ∧
      ((∃ (d : Expr.Tree (.one (.level .expr))) (k : List Char), s.toList = d.spelled ++ k ∧
          d.Reads Expr.greedy k ∧ p = d.spelled.length) ∨
        ((parse s.toList).found = none ∧ p = (parse s.toList).furthest)) ∧
      ∃ front line, LineAt s.toList p front line ∧
        e.Rejects s position (p - front.length + 1) ∧
        1 ≤ p - front.length + 1 ∧ p - front.length + 1 ≤ line.length + 1 := by
  intro e
  have he : Evaluator.Remembers builtins (before.map Query.text) e :=
    (Evaluator.remembers_fresh builtins).after h before
  refine ⟨fun t u c x ht hline hc => ?_, fun s hblank hnone => ?_⟩
  · -- what was asked before makes no difference to compilation
    rw [he.compile_fst] at ht
    refine he.rejects ?_ position
    have := Expr.compileChars_closed ht hline hc u.toList
    rw [String.length_toList] at this
    rw [Expr.compile, String.toList_append, String.toList_append, String.toList_singleton,
      List.append_assoc]
    exact this
  · intro p
    have hp := Expr.mistakeOffset_le s.toList
    obtain ⟨front, line, hat⟩ := Expr.exists_lineAt hp
    refine ⟨by rwa [String.length_toList] at hp, Expr.mistakeOffset_cases s.toList, front, line, hat,
      he.rejects ?_ position, by omega, ?_⟩
    · rw [Expr.compile, Expr.compileChars_of_not_matches hnone, hblank,
        Expr.columnAt_of_lineAt hat]
      rfl
    · have := hat.last
      omega

/-- What is found of a text whose second line has a mistake. -/
theorem parse_second_line : (parse "a\nb)".toList).found = some (.var "a", ⟨2, ['b', ')']⟩) := by cbv

theorem syntax_error_column_bracket :
    (Evaluator.fresh .builtin).Rejects ("f(a, ')')" ++ String.singleton ']' ++ " + ([,") .none 10 ∧
      ∃ front line, LineAt "a\nb)".toList 2 front line ∧
        (Evaluator.fresh .builtin).Rejects "a\nb)" .none (2 - front.length + 1) := by
  have hclosed := (syntax_error_column .builtin .empty [] .none).1 "f(a, ')')" " + ([," ']'
    (.factor (.var "f") [.call [.var "a", .literal (.text ")")]]) (by cbv) (by decide) (by decide)
  have hfound := parse_second_line
  have hnone (x : Expr) : ¬Matches "a\nb)".toList x := by
    rintro ⟨n, hn⟩
    rw [hfound] at hn
    cases hn
  obtain ⟨-, -, front, line, hat, hr, -⟩ :=
    (syntax_error_column .builtin .empty [] .none).2 "a\nb)" (by decide) hnone
  simp only [Expr.Reply.mistakeOffset, hfound] at hat hr
  exact ⟨hclosed, front, line, hat, hr⟩

end Trellis
