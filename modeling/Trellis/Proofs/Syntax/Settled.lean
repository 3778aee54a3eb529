import Trellis.Proofs.Syntax.Compiled
import Trellis.Proofs.Syntax.Printer

/-!
# Proofs — Syntax — Settled

The lexemes of a compiled text can be written anywhere.

* `Tree.reads_named`: no word goes on behind a name of a compiled text, so that the name is one
  wherever it stands alone (`greedy_name_alone`).
* `hasUnreadable_eq`: whether a literal cannot be read is told by the marks of an expression.
* `reads_settled`: both together, for texts without floating-point numbers.
-/

namespace Trellis.Expr

open Trellis.Decimal (digitLimit)
open Trellis.Text (isSpace isWord)

/-! ### Names -/

/-- Names in front of white space, an operator or the end. -/
def named : Lexicon
  | .name, _, r => Follows 8 r
  | _, _, _     => True

/-- What follows a name of a derivation that the matchers make is no word. -/
theorem Tree.reads_named {f : Form} (d : Tree f) (hf : f.isTold = true) {k : List Char}
    (hr : d.Reads greedy k) (hk : Follows f.bound k) : d.Reads named k := by
  induction d generalizing k with
  | expr w e w' ih =>
      obtain ⟨-, he, hw'⟩ := reads_expr.mp hr
      have hk' := (follows_append (greedy_space.mp hw').1).mpr hk
      exact reads_expr.mpr ⟨trivial, ih rfl he hk', trivial⟩
  | choice test b iht ihb =>
      obtain ⟨ht, hb⟩ := reads_choice.mp hr
      exact reads_choice.mpr ⟨iht rfl ht (follows_branches b hb hk), ihb rfl hb hk⟩
  | branches w₁ w₂ yes w₃ w₄ no ihy ihn =>
      obtain ⟨-, -, -, hy, h₃, -, -, hn⟩ := reads_branches.mp hr
      have hk' : Follows 1 (w₃ ++ ':' :: (w₄ ++ (no.spelled ++ k))) :=
        follows_symbol h₃ rfl (by decide)
      exact reads_branches.mpr ⟨trivial, trivial, trivial, ihy rfl hy hk', trivial, trivial, trivial,
        ihn rfl hn hk⟩
  | logic c e es ihe ihs =>
      obtain ⟨he, hs⟩ := reads_logic.mp hr
      have hk' : Follows (Form.many (.operand c)).bound k := by cases c <;> exact hk
      exact reads_logic.mpr ⟨ihe rfl he (follows_operands es hs hk), ihs rfl hs hk'⟩
  | operand c w t w' e ih =>
      obtain ⟨-, -, -, he⟩ := reads_operand.mp hr
      exact reads_operand.mpr ⟨trivial, trivial, trivial, ih rfl he hk⟩
  | denial t w e ih =>
      obtain ⟨-, -, he⟩ := reads_denial.mp hr
      exact reads_denial.mpr ⟨trivial, trivial, ih rfl he hk⟩
  | comparison e ih | single e ih => exact ih rfl hr hk
  | chain i e ss ihe ihs =>
      obtain ⟨he, hs⟩ := reads_chain.mp hr
      have hk' : Follows (Form.many (.step i)).bound k := by cases i <;> exact hk
      exact reads_chain.mpr ⟨ihe rfl he (follows_steps ss hs hk), ihs rfl hs hk'⟩
  | step i w o t w' e ih =>
      obtain ⟨-, -, -, he⟩ := reads_step.mp hr
      exact reads_step.mpr ⟨trivial, trivial, trivial, ih rfl he hk⟩
  | minus w e ih =>
      obtain ⟨-, -, he⟩ := reads_minus.mp hr
      exact reads_minus.mpr ⟨trivial, trivial, ih rfl he hk⟩
  | factor a ts iha iht =>
      obtain ⟨ha, ht⟩ := reads_factor.mp hr
      exact reads_factor.mpr ⟨iha rfl ha (follows_trailers ts ht hk), iht rfl ht hk⟩
  | nextTrailer w t ih =>
      obtain ⟨-, ht⟩ := reads_nextTrailer.mp hr
      exact reads_nextTrailer.mpr ⟨trivial, ih rfl ht hk⟩
  | call w es w' ih =>
      obtain ⟨-, -, hs, hw', -⟩ := reads_call.mp hr
      have hk' : Follows 0 (w' ++ ')' :: k) := follows_symbol hw' rfl (by decide)
      exact reads_call.mpr ⟨trivial, trivial, ih rfl hs hk', trivial, trivial⟩
  | list w es w' ih =>
      obtain ⟨-, -, hs, hw', -⟩ := reads_list.mp hr
      have hk' : Follows 0 (w' ++ ']' :: k) := follows_symbol hw' rfl (by decide)
      exact reads_list.mpr ⟨trivial, trivial, ih rfl hs hk', trivial, trivial⟩
  | dict w ps w' ih =>
      obtain ⟨-, -, hs, hw', -⟩ := reads_dict.mp hr
      have hk' : Follows 0 (w' ++ '\x7d' :: k) := follows_symbol hw' rfl (by decide)
      exact reads_dict.mpr ⟨trivial, trivial, ih rfl hs hk', trivial, trivial⟩
  | index e ih =>
      obtain ⟨-, he, -⟩ := reads_index.mp hr
      exact reads_index.mpr ⟨trivial, ih rfl he ((follows_cons rfl).mpr (by decide)), trivial⟩
  | inner e ih =>
      obtain ⟨-, he, -⟩ := reads_inner.mp hr
      exact reads_inner.mpr ⟨trivial, ih rfl he ((follows_cons rfl).mpr (by decide)), trivial⟩
  -- of all parts only names care for what follows
  | member w n => exact reads_member.mpr ⟨trivial, trivial, hk⟩
  | number | text | truth | null | textKey | numberKey => exact ⟨trivial, trivial⟩
  | var n => exact reads_var.mpr hk
  | nameKey n => exact reads_nameKey.mpr (hk.mono (by decide))
  | series p hp a as iha ihs =>
      obtain ⟨ha, hs⟩ := reads_series.mp hr
      exact reads_series.mpr ⟨iha rfl ha (follows_items hp as hs hk), ihs hp hs hk⟩
  | nextItem p a ih =>
      obtain ⟨-, ha⟩ := reads_nextItem.mp hr
      exact reads_nextItem.mpr ⟨trivial, ih rfl ha hk⟩
  | pair w dk w' e ihk ihe =>
      obtain ⟨-, hkey, hw', -, he⟩ := reads_pair.mp hr
      have hk' : Follows 1 (w' ++ ':' :: (e.spelled ++ k)) := follows_symbol hw' rfl (by decide)
      exact reads_pair.mpr ⟨trivial, ihk rfl hkey hk', trivial, trivial, ihe rfl he hk⟩
  | absent | nil => trivial
  | present p a ih =>
      cases p with
      | branches | series => exact ih rfl hr hk
      | _ => cases hf
  | cons p a as iha ihs =>
      obtain ⟨hpos, hle⟩ := Phrase.rank_of_continues hf
      obtain ⟨ha, hs⟩ := reads_cons.mp hr
      have hk' : Follows p.bound (as.spelled ++ k) :=
        follows_many as hpos hs (hk.mono (Nat.le_trans (Nat.sub_le _ _) hle)) hle
      exact reads_cons.mpr ⟨iha rfl ha hk', ihs hf hs hk⟩

/-- No operator starts with a word character other than those of names. -/
theorem continuesName_of_rank {c : Char} (h : rank c ≤ 8) (hc : isWord c = true) :
    Token.continuesName c = true := by
  have hlt : operatorStarts.findIdx (·.contains c) < operatorStarts.length :=
    Nat.lt_of_le_of_lt h (by decide)
  obtain ⟨l, hl, hmem⟩ := List.findIdx_lt_length.mp hlt
  have hstarts : ∀ l ∈ operatorStarts, ∀ c ∈ l, isWord c = true → Token.continuesName c = true := by
    decide
  exact hstarts l hl c (List.contains_iff_mem.mp hmem) hc

/-- A name in front of white space, an operator or the end is a name alone. -/
theorem greedy_name_alone {t r : List Char} (h : greedy .name t r) (hr : Follows 8 r) :
    greedy .name t [] := by
  obtain ⟨hword, hname⟩ := h
  obtain ⟨hchars, -, hnext⟩ := Token.identifier_eq_some.mp hname
  refine ⟨?_, Token.identifier_eq_some.mpr ⟨hchars, rfl, nofun⟩⟩
  have hends : Token.endsWord r = true := by
    cases r with
    | nil => rfl
    | cons c r =>
        refine (Bool.not_eq_true' _).mpr (Bool.eq_false_iff.mpr fun hc => ?_)
        rcases hr.head c rfl with hs | hrank
        · rw [Text.isWord_of_isSpace hs] at hc
          cases hc
        · have := hnext c rfl
          rw [continuesName_of_rank hrank hc] at this
          cases this
  -- A reserved word at the front of the name alone would be one in front of `r` as well.
  cases hres : Token.reservedWord (t ++ []) with
  | none => rfl
  | some q =>
      obtain ⟨t', u⟩ := q
      obtain ⟨w, hw, rfl, ht, hu⟩ := Token.mem_of_words hres
      rw [List.append_nil] at ht
      subst ht
      have hends' : Token.endsWord (u ++ r) = true := by
        cases u with
        | nil => exact hends
        | cons c u => exact hu
      have hfits := Token.word_eq_none_of_reservedWord hw hword
      rw [List.append_assoc, Token.word_eq_some.mpr ⟨rfl, rfl, hends'⟩] at hfits
      cases hfits

/-! ### Literals -/

/-- The mark of a literal that cannot be read. -/
def isUnreadableMark : Mark → Bool
  | .literal l => l.isUnreadable
  | _          => false

/-- The mark of a literal tells whether it can be read. -/
theorem isUnreadableMark_mark (l : Literal) : isUnreadableMark l.mark = l.isUnreadable := by
  cases l <;> rfl

mutual

/-- Whether a literal cannot be read is told by the marks. -/
theorem hasUnreadable_eq : (e : Expr) → e.hasUnreadable = e.marks.any isUnreadableMark
  | literal l => by simp [hasUnreadable, marks, isUnreadableMark_mark]
  | var _ => rfl
  | factor e ts => by
      simp [hasUnreadable, marks, hasUnreadable_eq e, anyTailUnreadable_eq ts]
  | chain e ss => by
      simp [hasUnreadable, marks, hasUnreadable_eq e, anyStepUnreadable_eq ss]
  | neg e => by simp [hasUnreadable, marks, hasUnreadable_eq e, isUnreadableMark]
  | not e => by simp [hasUnreadable, marks, hasUnreadable_eq e, isUnreadableMark]
  | conj es => by simp [hasUnreadable, marks, anyUnreadable_eq (.connective .conj) rfl es]
  | disj es => by simp [hasUnreadable, marks, anyUnreadable_eq (.connective .disj) rfl es]
  | choice a b c => by
      simp [hasUnreadable, marks, hasUnreadable_eq a, hasUnreadable_eq b, hasUnreadable_eq c,
        isUnreadableMark, Bool.or_assoc]
  | list es => by simp [hasUnreadable, marks, anyUnreadable_eq (.symbol ',') rfl es, isUnreadableMark]
  | dict ps => by simp [hasUnreadable, marks, anyPairUnreadable_eq ps, isUnreadableMark]
termination_by structural e => e

/-- So it is told of items with separators between them. -/
theorem anyUnreadable_eq (sep : Mark) (hsep : isUnreadableMark sep = false) :
    (es : List Expr) → anyUnreadable es = (marksBetween sep es).any isUnreadableMark
  | [] => rfl
  | e :: es => by
      simp [anyUnreadable, marksBetween, hasUnreadable_eq e, anyUnreadable_eq_after sep hsep es]
termination_by structural es => es

theorem anyUnreadable_eq_after (sep : Mark) (hsep : isUnreadableMark sep = false) :
    (es : List Expr) → anyUnreadable es = (marksAfter sep es).any isUnreadableMark
  | [] => rfl
  | e :: es => by
      simp [anyUnreadable, marksAfter, hsep, hasUnreadable_eq e, anyUnreadable_eq_after sep hsep es]
termination_by structural es => es

/-- So it is told of operators with their operands. -/
theorem anyStepUnreadable_eq :
    (ss : List (Operator × Expr)) → anyStepUnreadable ss = (marksOfSteps ss).any isUnreadableMark
  | [] => rfl
  | s :: ss => by
      simp [anyStepUnreadable, marksOfSteps, stepUnreadable_eq s, anyStepUnreadable_eq ss]
termination_by structural ss => ss

theorem stepUnreadable_eq :
    (s : Operator × Expr) → stepUnreadable s = (marksOfStep s).any isUnreadableMark
  | (o, e) => by simp [stepUnreadable, marksOfStep, hasUnreadable_eq e, isUnreadableMark]
termination_by structural s => s

/-- So it is told of pairs, of which the keys are literals, too. -/
theorem anyPairUnreadable_eq :
    (ps : List (Literal × Expr)) → anyPairUnreadable ps = (marksOfPairs ps).any isUnreadableMark
  | [] => rfl
  | p :: ps => by
      simp [anyPairUnreadable, marksOfPairs, pairUnreadable_eq p, anyPairUnreadable_eq_after ps]
termination_by structural ps => ps

theorem anyPairUnreadable_eq_after :
    (ps : List (Literal × Expr)) → anyPairUnreadable ps = (marksAfterPairs ps).any isUnreadableMark
  | [] => rfl
  | p :: ps => by
      simp [anyPairUnreadable, marksAfterPairs, pairUnreadable_eq p, anyPairUnreadable_eq_after ps,
        isUnreadableMark]
termination_by structural ps => ps

theorem pairUnreadable_eq :
    (p : Literal × Expr) → pairUnreadable p = (marksOfPair p).any isUnreadableMark
  | (k, e) => by
      rw [pairUnreadable, marksOfPair, List.any_cons, List.any_cons, isUnreadableMark_mark,
        hasUnreadable_eq e]
      rfl
termination_by structural p => p

/-- So it is told of calls, indices and members. -/
theorem anyTailUnreadable_eq :
    (ts : List Tail) → anyTailUnreadable ts = (marksOfTails ts).any isUnreadableMark
  | [] => rfl
  | t :: ts => by
      simp [anyTailUnreadable, marksOfTails, tailUnreadable_eq t, anyTailUnreadable_eq ts]
termination_by structural ts => ts

theorem tailUnreadable_eq : (t : Tail) → tailUnreadable t = (marksOfTail t).any isUnreadableMark
  | .call es => by simp [tailUnreadable, marksOfTail, anyUnreadable_eq (.symbol ',') rfl es]
  | .index e => by simp [tailUnreadable, marksOfTail, hasUnreadable_eq e, isUnreadableMark]
  | .member _ => rfl
termination_by structural t => t

end

/-- There is a floating-point number among the literals and keys of the expression. -/
def HasFloat (e : Expr) : Prop := ∃ x, Mark.literal (.floating x) ∈ e.marks

/-- Lexemes that are written alike wherever they stand. -/
def settled : Lexicon
  | .name, t, _      => greedy .name t []
  | .number, t, _    => ∃ n, Token.numberLiteral t = .whole n ∧ n < 10 ^ digitLimit
  | .sign i o, _, _  => o.tier = i
  | _, _, _          => True

/-- A number is read as a whole one, as another, or not at all. -/
theorem Token.numberLiteral_cases (t : List Char) :
    (∃ n, numberLiteral t = .whole n) ∨ (∃ x, numberLiteral t = .floating x) ∨
      numberLiteral t = .unreadable := by
  unfold numberLiteral
  split
  · split
    · exact .inr (.inl ⟨_, rfl⟩)
    · exact .inr (.inr rfl)
  · split
    · exact .inl ⟨_, rfl⟩
    · exact .inr (.inr rfl)
    · exact .inr (.inr rfl)

/-- A lexeme that the matchers make is settled if nothing goes on with it and it is no number other
than a whole one. -/
theorem settled_of_greedy {x : Lexeme} {t r : List Char} (h : greedy x t r) (hname : named x t r)
    (hmark : ∀ m ∈ x.marks t, isUnreadableMark m = false ∧ ∀ y, m ≠ .literal (.floating y)) :
    settled x t r := by
  cases x with
  | name => exact greedy_name_alone h hname
  | number =>
      obtain ⟨hread, hfloat⟩ := hmark _ (List.mem_singleton_self _)
      rcases Token.numberLiteral_cases t with ⟨n, hn⟩ | ⟨y, hy⟩ | hu
      · exact ⟨n, hn, Token.numberLiteral_lt hn⟩
      · rw [hy] at hfloat
        exact absurd rfl (hfloat y)
      · rw [hu] at hread
        cases hread
  | sign i o =>
      obtain ⟨p, hmem, -⟩ := mem_of_firstSign h
      have htier : ∀ q ∈ i.signs, q.1.tier = i := by cases i <;> decide
      exact htier _ hmem
  | _ => trivial

/-- Lexemes that the matchers make are settled, one by one. -/
theorem allows_settled {ls : Writing} {k : List Char} (h : greedy.Allows ls k)
    (hnames : named.Allows ls k)
    (hmarks : ∀ m ∈ ls.marks, isUnreadableMark m = false ∧ ∀ y, m ≠ .literal (.floating y)) :
    settled.Allows ls k := by
  induction ls with
  | nil => trivial
  | cons l ls ih =>
      obtain ⟨x, t⟩ := l
      obtain ⟨hx, hls⟩ := List.forall_mem_append.mp hmarks
      exact ⟨settled_of_greedy h.1 hnames.1 hx, ih h.2 hnames.2 hls⟩

/-- The lexemes of a compiled text without floating-point numbers are settled. -/
theorem reads_settled {t : List Char} {e : Expr} (h : compileChars t = .ok e)
    (hfloat : ¬e.HasFloat) :
    ∃ d : Tree (.one (.level .expr)), d.image = e ∧ d.Reads settled [] := by
  obtain ⟨d, -, hr, rfl⟩ := derivation_of_compileChars h
  refine ⟨d, rfl, allows_settled hr (d.reads_named rfl hr follows_nil) ?_⟩
  intro m hm
  rw [← d.marks_image] at hm
  have hu := (compileChars_eq_ok.mp h).2
  rw [hasUnreadable_eq, List.any_eq_false] at hu
  refine ⟨Bool.eq_false_iff.mpr (hu m hm), ?_⟩
  rintro y rfl
  exact hfloat ⟨y, hm⟩

end Trellis.Expr
