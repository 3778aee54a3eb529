import Trellis.Proofs.Syntax.Soundness
import Trellis.Proofs.Syntax.Completeness
import Trellis.Proofs.Syntax.Regular
import Trellis.Proofs.Syntax.Marks
import Trellis.Expr.Compile

/-!
# Proofs — Syntax — Compiled

Which texts are compiled, and to what.

* `Matches s e`: the grammar takes the text `s` as a whole and finds `e` in it.  The text is the one
  of a derivation then, and `e` is its image (`matches_iff_derivation`).
* `compileChars_of_matches`: such a text is compiled if its literals can be read.
* `compile_sound`: what is compiled is the image of a derivation of the whole text.
-/

namespace Trellis.Expr

open Matcher

/-- The grammar takes the text as a whole, and what it finds is `e`. -/
def Matches (s : List Char) (e : Expr) : Prop := ∃ n, (parse s).found = some (e, ⟨n, []⟩)

/-- The derivation that the matchers make, and what they make of a derivation. -/
theorem matches_iff_derivation {s : List Char} {e : Expr} : Matches s e ↔
    ∃ d : Tree (.one (.level .expr)), d.spelled = s ∧ d.Reads greedy [] ∧ d.image = e := by
  constructor
  · rintro ⟨n, hf⟩
    obtain ⟨d, rfl, hs, hr⟩ := (sound_rules _).expr hf
    exact ⟨d, (hs.trans (List.append_nil _)).symm, hr, rfl⟩
  · rintro ⟨d, rfl, hr, rfl⟩
    have spans : Spans (rules (d.spelled.length + 1)).expr d.spelled d.image [] :=
      d.isFound rfl (Nat.le_refl _) hr follows_nil
    have := spans 0
    rw [List.append_nil, Nat.zero_add] at this
    exact ⟨d.spelled.length, this⟩

/-- A blank text is not matched. -/
theorem Matches.not_blank {s : List Char} {e : Expr} (h : Matches s e) :
    s.all Text.isBlank = false := by
  obtain ⟨d, rfl, hr, -⟩ := matches_iff_derivation.mp h
  obtain ⟨c, hc, hb⟩ := d.exists_not_blank rfl hr
  exact List.all_eq_false.mpr ⟨c, hc, by simp [hb]⟩

/-- A text that is matched is compiled, if its literals can be read. -/
theorem compileChars_of_matches {s : List Char} {e : Expr} (h : Matches s e) :
    compileChars s = if e.hasUnreadable then .error .unreadable else .ok e := by
  have hb := h.not_blank
  obtain ⟨n, hf⟩ := h
  simp only [compileChars, hb, hf, Bool.false_eq_true, if_false]

/-- A text that is not matched is a mistake, which is at the end of the part that was taken or at
the furthest failure. -/
theorem compileChars_of_not_matches {s : List Char} (h : ∀ e, ¬Matches s e) : compileChars s =
    if s.all Text.isBlank then .error .empty
    else .error (.invalid (columnAt s (parse s).mistakeOffset)) := by
  unfold compileChars
  split
  · rfl
  · simp only
    split
    · next e n hf => exact absurd ⟨n, hf⟩ (h e)
    · rfl

/-- A text is compiled to `e` if it is matched and all literals in `e` can be read. -/
theorem compileChars_eq_ok {s : List Char} {e : Expr} :
    compileChars s = .ok e ↔ Matches s e ∧ e.hasUnreadable = false := by
  by_cases h : ∃ e', Matches s e'
  · obtain ⟨e', h'⟩ := h
    rw [compileChars_of_matches h']
    constructor
    · intro hc
      split at hc
      · cases hc
      · next hu =>
        cases hc
        exact ⟨h', Bool.eq_false_iff.mpr hu⟩
    · rintro ⟨⟨n, hf⟩, hu⟩
      obtain ⟨n', hf'⟩ := h'
      obtain ⟨rfl, -⟩ := Prod.mk.inj (Option.some.inj (hf.symm.trans hf'))
      rw [hu, if_neg Bool.false_ne_true]
  · simp only [not_exists] at h
    rw [compileChars_of_not_matches h]
    constructor
    · intro hc
      split at hc <;> cases hc
    · rintro ⟨h', -⟩
      exact absurd h' (h e)

/-- The derivation of a compiled text. -/
theorem derivation_of_compileChars {s : List Char} {e : Expr} (h : compileChars s = .ok e) :
    ∃ d : Tree (.one (.level .expr)), d.spelled = s ∧ d.Reads greedy [] ∧ d.image = e :=
  matches_iff_derivation.mp (compileChars_eq_ok.mp h).1

/-- A derivation of a text is compiled to what it stands for, if that can be read. -/
theorem compileChars_of_derivation {s : List Char} {d : Tree (.one (.level .expr))}
    (hs : d.spelled = s) (hr : d.Reads greedy []) (hu : d.image.hasUnreadable = false) :
    compileChars s = .ok d.image :=
  compileChars_eq_ok.mpr ⟨matches_iff_derivation.mpr ⟨d, hs, hr, rfl⟩, hu⟩

/-- **Soundness of the parser.**  A text that is compiled is derived as a whole from the grammar
read declaratively: its lexemes, white space included, give back the text and are as the regular
expressions of the grammar describe them.  The result is what that derivation stands for, and it is
made of the tokens of the derivation other than parentheses, in their order. -/
theorem compile_sound {s : String} {e : Expr} (h : compile s = .ok e) :
    ∃ d : Tree (.one (.level .expr)),
      d.spelled = s.toList ∧ d.Reads declared [] ∧ d.image = e ∧ e.marks = d.lexemes.marks := by
  obtain ⟨d, hs, hr, rfl⟩ := derivation_of_compileChars h
  exact ⟨d, hs, hr.mono declared_of_greedy, rfl, d.marks_image⟩

theorem compile_sound_not_in :
    ∃ d : Tree (.one (.level .expr)),
      d.spelled = "f(x) not  in [1]".toList ∧ d.Reads declared [] ∧
        d.image = .chain (.factor (.var "f") [.call [.var "x"]])
          [(.notIn, .list [.literal (.whole 1)])] ∧
        (Expr.chain (.factor (.var "f") [.call [.var "x"]])
          [(.notIn, .list [.literal (.whole 1)])]).marks = d.lexemes.marks :=
  compile_sound (by cbv)

end Trellis.Expr
