import Trellis.Expr.Grammar
import Mathlib

/-!
# Proofs — Syntax — Derivation

Derivations of the expression grammar, read declaratively.  A `Tree` has one constructor for each
way in which a rule derives; `many` and `perhaps` stand for repeated and optional parts.  A tree
has a sequence of lexemes, whose concatenation is the text it derives, and an image, the expression
that the text stands for.

What a lexeme may be written as is said by a `Lexicon`, which is told what follows the lexeme in the
text.  `Tree.Reads` says that all lexemes of a tree are written so.
-/

namespace Trellis.Expr

/-- Disjunction and conjunction. -/
inductive Connective where
  | disj
  | conj
  deriving DecidableEq

/-- The levels of binary operators. -/
inductive Tier where
  | comparison
  | sum
  | product
  deriving DecidableEq

/-- The levels of expressions, from the loosest to the tightest. -/
inductive Level where
  | expr
  | choice
  | logic (c : Connective)
  | negation
  | chain (i : Tier)
  | unary
  | factor
  | atom

/-- The level of the operands of a connective. -/
def Connective.operand : Connective → Level
  | disj => .logic .conj
  | conj => .negation

/-- The level of the operands of binary operators. -/
def Tier.operand : Tier → Level
  | comparison => .chain .sum
  | sum        => .chain .product
  | product    => .unary

/-- The rules of the grammar. -/
inductive Phrase where
  | level (l : Level)
  | branches
  | operand (c : Connective)
  | step (i : Tier)
  | nextTrailer
  | trailer
  | series (p : Phrase)
  | nextItem (p : Phrase)
  | pair
  | key

/-- The phrases that series are made of. -/
def Phrase.isItem : Phrase → Bool
  | level .expr | pair => true
  | _                  => false

/-- What phrases stand for. -/
@[reducible]
def Phrase.Value : Phrase → Type
  | level _ | operand _    => Expr
  | branches               => Expr × Expr
  | step _                 => Operator × Expr
  | nextTrailer | trailer  => Tail
  | series p               => List p.Value
  | nextItem p             => p.Value
  | pair                   => Literal × Expr
  | key                    => Literal

/-- A phrase, a phrase repeated any number of times, or a phrase that may be absent. -/
inductive Form where
  | one (p : Phrase)
  | many (p : Phrase)
  | perhaps (p : Phrase)

/-- What forms stand for. -/
@[reducible]
def Form.Value : Form → Type
  | one p     => p.Value
  | many p    => List p.Value
  | perhaps p => Option p.Value

/-! ### Lexemes -/

/-- The kinds of lexemes. -/
inductive Lexeme where
  | space
  | symbol (c : Char)
  | number
  | text
  | truth
  | null
  | name
  | denial
  | connective (c : Connective)
  | sign (i : Tier) (o : Operator)

/-- Lexemes as they are written. -/
abbrev Writing := List (Lexeme × List Char)

namespace Writing

/-- The text that is written. -/
def text (ls : Writing) : List Char := ls.flatMap (·.2)

@[simp] theorem text_nil : text [] = [] := rfl

@[simp] theorem text_cons (x : Lexeme) (t : List Char) (ls : Writing) :
    text ((x, t) :: ls) = t ++ text ls := rfl

/-- A writing is read from left to right. -/
@[simp] theorem text_append (ls ls' : Writing) : text (ls ++ ls') = text ls ++ text ls' := by
  simp [text]

end Writing

/-- How lexemes may be written in front of what follows. -/
abbrev Lexicon := Lexeme → (written following : List Char) → Prop

/-- All lexemes are written as they may be, in front of `k`. -/
def Lexicon.Allows (L : Lexicon) : Writing → List Char → Prop
  | [], _           => True
  | (x, t) :: ls, k => L x t (Writing.text ls ++ k) ∧ L.Allows ls k

namespace Lexicon

variable {L L' : Lexicon} {k : List Char}

@[simp] theorem allows_nil : L.Allows [] k := trivial

/-- A lexeme may stand in front of the text of those behind it. -/
@[simp] theorem allows_cons {x : Lexeme} {t : List Char} {ls : Writing} :
    L.Allows ((x, t) :: ls) k ↔ L x t (Writing.text ls ++ k) ∧ L.Allows ls k := Iff.rfl

/-- A writing is allowed if its parts are, the first in front of the text of the second. -/
@[simp] theorem allows_append {ls ls' : Writing} :
    L.Allows (ls ++ ls') k ↔ L.Allows ls (ls'.text ++ k) ∧ L.Allows ls' k := by
  induction ls with
  | nil => simp
  | cons l ls ih =>
      obtain ⟨x, t⟩ := l
      simp [ih, and_assoc]

/-- What a lexicon allows, a more generous one allows. -/
theorem Allows.mono (h : ∀ x t r, L x t r → L' x t r) {ls : Writing} (hl : L.Allows ls k) :
    L'.Allows ls k := by
  induction ls with
  | nil => trivial
  | cons l ls ih => exact ⟨h _ _ _ hl.1, ih hl.2⟩

end Lexicon

/-! ### Derivations -/

/-- Derivations.  Lists of characters are white space (`w`) and other lexemes. -/
inductive Tree : Form → Type where
  | expr (w : List Char) (e : Tree (.one (.level .choice))) (w' : List Char) :
      Tree (.one (.level .expr))
  | choice (test : Tree (.one (.level (.logic .disj)))) (b : Tree (.perhaps .branches)) :
      Tree (.one (.level .choice))
  | branches (w₁ w₂ : List Char) (yes : Tree (.one (.level .choice))) (w₃ w₄ : List Char)
      (no : Tree (.one (.level .choice))) : Tree (.one .branches)
  | logic (c : Connective) (e : Tree (.one (.level c.operand))) (es : Tree (.many (.operand c))) :
      Tree (.one (.level (.logic c)))
  | operand (c : Connective) (w t w' : List Char) (e : Tree (.one (.level c.operand))) :
      Tree (.one (.operand c))
  | denial (t w : List Char) (e : Tree (.one (.level .negation))) : Tree (.one (.level .negation))
  | comparison (e : Tree (.one (.level (.chain .comparison)))) : Tree (.one (.level .negation))
  | chain (i : Tier) (e : Tree (.one (.level i.operand))) (ss : Tree (.many (.step i))) :
      Tree (.one (.level (.chain i)))
  | step (i : Tier) (w : List Char) (o : Operator) (t w' : List Char)
      (e : Tree (.one (.level i.operand))) : Tree (.one (.step i))
  | minus (w : List Char) (e : Tree (.one (.level .unary))) : Tree (.one (.level .unary))
  | single (e : Tree (.one (.level .factor))) : Tree (.one (.level .unary))
  | factor (a : Tree (.one (.level .atom))) (ts : Tree (.many .nextTrailer)) :
      Tree (.one (.level .factor))
  | nextTrailer (w : List Char) (t : Tree (.one .trailer)) : Tree (.one .nextTrailer)
  | call (w : List Char) (es : Tree (.perhaps (.series (.level .expr)))) (w' : List Char) :
      Tree (.one .trailer)
  | index (e : Tree (.one (.level .expr))) : Tree (.one .trailer)
  | member (w n : List Char) : Tree (.one .trailer)
  | number (t : List Char) : Tree (.one (.level .atom))
  | text (t : List Char) : Tree (.one (.level .atom))
  | truth (t : List Char) : Tree (.one (.level .atom))
  | null (t : List Char) : Tree (.one (.level .atom))
  | var (n : List Char) : Tree (.one (.level .atom))
  | inner (e : Tree (.one (.level .expr))) : Tree (.one (.level .atom))
  | list (w : List Char) (es : Tree (.perhaps (.series (.level .expr)))) (w' : List Char) :
      Tree (.one (.level .atom))
  | dict (w : List Char) (ps : Tree (.perhaps (.series .pair))) (w' : List Char) :
      Tree (.one (.level .atom))
  | series (p : Phrase) (hp : p.isItem = true) (a : Tree (.one p))
      (as : Tree (.many (.nextItem p))) : Tree (.one (.series p))
  | nextItem (p : Phrase) (a : Tree (.one p)) : Tree (.one (.nextItem p))
  | pair (w : List Char) (k : Tree (.one .key)) (w' : List Char) (e : Tree (.one (.level .expr))) :
      Tree (.one .pair)
  | textKey (t : List Char) : Tree (.one .key)
  | numberKey (t : List Char) : Tree (.one .key)
  | nameKey (n : List Char) : Tree (.one .key)
  | absent (p : Phrase) : Tree (.perhaps p)
  | present (p : Phrase) (a : Tree (.one p)) : Tree (.perhaps p)
  | nil (p : Phrase) : Tree (.many p)
  | cons (p : Phrase) (a : Tree (.one p)) (as : Tree (.many p)) : Tree (.many p)

namespace Tree

/-- A symbol as it is written. -/
abbrev symbol (c : Char) : Lexeme × List Char := (.symbol c, [c])

/-- The lexemes of a derivation, from left to right. -/
def lexemes : {f : Form} → Tree f → Writing
  | _, expr w e w' => (.space, w) :: e.lexemes ++ [(.space, w')]
  | _, choice test b => test.lexemes ++ b.lexemes
  | _, branches w₁ w₂ yes w₃ w₄ no =>
    (.space, w₁) :: symbol '?' :: (.space, w₂) :: yes.lexemes ++
      (.space, w₃) :: symbol ':' :: (.space, w₄) :: no.lexemes
  | _, logic _ e es => e.lexemes ++ es.lexemes
  | _, operand c w t w' e => (.space, w) :: (.connective c, t) :: (.space, w') :: e.lexemes
  | _, denial t w e => (.denial, t) :: (.space, w) :: e.lexemes
  | _, comparison e => e.lexemes
  | _, chain _ e ss => e.lexemes ++ ss.lexemes
  | _, step i w o t w' e => (.space, w) :: (.sign i o, t) :: (.space, w') :: e.lexemes
  | _, minus w e => symbol '-' :: (.space, w) :: e.lexemes
  | _, single e => e.lexemes
  | _, factor a ts => a.lexemes ++ ts.lexemes
  | _, nextTrailer w t => (.space, w) :: t.lexemes
  | _, call w es w' => symbol '(' :: (.space, w) :: es.lexemes ++ [(.space, w'), symbol ')']
  | _, index e => symbol '[' :: e.lexemes ++ [symbol ']']
  | _, member w n => [symbol '.', (.space, w), (.name, n)]
  | _, number t => [(.number, t)]
  | _, text t => [(.text, t)]
  | _, truth t => [(.truth, t)]
  | _, null t => [(.null, t)]
  | _, var n => [(.name, n)]
  | _, inner e => symbol '(' :: e.lexemes ++ [symbol ')']
  | _, list w es w' => symbol '[' :: (.space, w) :: es.lexemes ++ [(.space, w'), symbol ']']
  | _, dict w ps w' =>
    symbol '\x7b' :: (.space, w) :: ps.lexemes ++ [(.space, w'), symbol '\x7d']
  | _, series _ _ a as => a.lexemes ++ as.lexemes
  | _, nextItem _ a => symbol ',' :: a.lexemes
  | _, pair w k w' e => (.space, w) :: k.lexemes ++ (.space, w') :: symbol ':' :: e.lexemes
  | _, textKey t => [(.text, t)]
  | _, numberKey t => [(.number, t)]
  | _, nameKey n => [(.name, n)]
  | _, absent _ => []
  | _, present _ a => a.lexemes
  | _, nil _ => []
  | _, cons _ a as => a.lexemes ++ as.lexemes

/-- The text that is derived. -/
def spelled {f : Form} (d : Tree f) : List Char := d.lexemes.text

/-- All lexemes of the derivation are written as the lexicon allows, in front of `k`. -/
def Reads {f : Form} (L : Lexicon) (d : Tree f) (k : List Char) : Prop := L.Allows d.lexemes k

/-- What the derived text stands for. -/
def image : {f : Form} → Tree f → f.Value
  | _, expr _ e _ => e.image
  | _, choice test b =>
    match b.image with
    | none => test.image
    | some (yes, no) => .choice test.image yes no
  | _, branches _ _ yes _ _ no => (yes.image, no.image)
  | _, logic .disj e es => disjOf e.image es.image
  | _, logic .conj e es => conjOf e.image es.image
  | _, operand _ _ _ _ e => e.image
  | _, denial _ _ e => .not e.image
  | _, comparison e => e.image
  | _, chain _ e ss => chainOf e.image ss.image
  | _, step _ _ o _ _ e => (o, e.image)
  | _, minus _ e => .neg e.image
  | _, single e => e.image
  | _, factor a ts => factorOf a.image ts.image
  | _, nextTrailer _ t => t.image
  | _, call _ es _ => .call (Rule.orNothing es.image)
  | _, index e => .index e.image
  | _, member _ n => .member (String.ofList n)
  | _, number t => .literal (Token.numberLiteral t)
  | _, text t => .literal (.text (Token.unquote t))
  | _, truth t => .literal (.truth (t = "true".toList || t = "True".toList))
  | _, null _ => .literal .null
  | _, var n => .var (String.ofList n)
  | _, inner e => e.image
  | _, list _ es _ => .list (Rule.orNothing es.image)
  | _, dict _ ps _ => .dict (Rule.orNothing ps.image)
  | _, series _ _ a as => a.image :: as.image
  | _, nextItem _ a => a.image
  | _, pair _ k _ e => (k.image, e.image)
  | _, textKey t => .text (Token.unquote t)
  | _, numberKey t => Token.numberLiteral t
  | _, nameKey n => .text (String.ofList n)
  | _, absent _ => none
  | _, present _ a => some a.image
  | _, nil _ => []
  | _, cons _ a as => a.image :: as.image

/-! ### The parts of a derivation

The text of a derivation is that of its parts, from left to right, and a derivation is written as a
lexicon allows if its parts are, each in front of the text of those behind it. -/

section Parts

attribute [local simp] Reads spelled lexemes

variable {L : Lexicon} {w w' w₁ w₂ w₃ w₄ t n k : List Char}

/-- The text of an expression is that of its choice, with white space around it. -/
@[simp] theorem spelled_expr (e) : (expr w e w').spelled = w ++ (e.spelled ++ w') := by
  simp

/-- Its white space and its choice are allowed, each in front of what is behind it. -/
@[simp] theorem reads_expr {e} : (expr w e w').Reads L k ↔
    L .space w (e.spelled ++ (w' ++ k)) ∧ e.Reads L (w' ++ k) ∧ L .space w' k := by
  simp

@[simp] theorem spelled_choice (test b) : (choice test b).spelled = test.spelled ++ b.spelled := by
  simp

@[simp] theorem reads_choice {test b} :
    (choice test b).Reads L k ↔ test.Reads L (b.spelled ++ k) ∧ b.Reads L k := by
  simp

/-- The text of two branches has a mark in front of each. -/
@[simp] theorem spelled_branches (yes no) : (branches w₁ w₂ yes w₃ w₄ no).spelled =
    w₁ ++ '?' :: (w₂ ++ (yes.spelled ++ (w₃ ++ ':' :: (w₄ ++ no.spelled)))) := by
  simp

/-- The marks, the white space and the branches are allowed, one behind the other. -/
@[simp] theorem reads_branches {yes no} : (branches w₁ w₂ yes w₃ w₄ no).Reads L k ↔
    L .space w₁ ('?' :: (w₂ ++ (yes.spelled ++ (w₃ ++ ':' :: (w₄ ++ (no.spelled ++ k)))))) ∧
      L (.symbol '?') ['?'] (w₂ ++ (yes.spelled ++ (w₃ ++ ':' :: (w₄ ++ (no.spelled ++ k))))) ∧
      L .space w₂ (yes.spelled ++ (w₃ ++ ':' :: (w₄ ++ (no.spelled ++ k)))) ∧
      yes.Reads L (w₃ ++ ':' :: (w₄ ++ (no.spelled ++ k))) ∧
      L .space w₃ (':' :: (w₄ ++ (no.spelled ++ k))) ∧
      L (.symbol ':') [':'] (w₄ ++ (no.spelled ++ k)) ∧
      L .space w₄ (no.spelled ++ k) ∧ no.Reads L k := by
  simp

@[simp] theorem spelled_logic (c e es) : (logic c e es).spelled = e.spelled ++ es.spelled := by
  simp

@[simp] theorem reads_logic {c e es} :
    (logic c e es).Reads L k ↔ e.Reads L (es.spelled ++ k) ∧ es.Reads L k := by
  simp

/-- A connective stands in front of its operand, with white space on both sides. -/
@[simp] theorem spelled_operand (c e) :
    (operand c w t w' e).spelled = w ++ (t ++ (w' ++ e.spelled)) := by
  simp

@[simp] theorem reads_operand {c e} : (operand c w t w' e).Reads L k ↔
    L .space w (t ++ (w' ++ (e.spelled ++ k))) ∧
      L (.connective c) t (w' ++ (e.spelled ++ k)) ∧ L .space w' (e.spelled ++ k) ∧
      e.Reads L k := by
  simp

@[simp] theorem spelled_denial (e) : (denial t w e).spelled = t ++ (w ++ e.spelled) := by
  simp

@[simp] theorem reads_denial {e} : (denial t w e).Reads L k ↔
    L .denial t (w ++ (e.spelled ++ k)) ∧ L .space w (e.spelled ++ k) ∧ e.Reads L k := by
  simp

@[simp] theorem spelled_comparison (e) : (comparison e).spelled = e.spelled := rfl

@[simp] theorem reads_comparison {e} : (comparison e).Reads L k ↔ e.Reads L k := Iff.rfl

@[simp] theorem spelled_chain (i e ss) : (chain i e ss).spelled = e.spelled ++ ss.spelled := by
  simp

@[simp] theorem reads_chain {i e ss} :
    (chain i e ss).Reads L k ↔ e.Reads L (ss.spelled ++ k) ∧ ss.Reads L k := by
  simp

/-- An operator stands so as well. -/
@[simp] theorem spelled_step (i o e) :
    (step i w o t w' e).spelled = w ++ (t ++ (w' ++ e.spelled)) := by
  simp

@[simp] theorem reads_step {i o e} : (step i w o t w' e).Reads L k ↔
    L .space w (t ++ (w' ++ (e.spelled ++ k))) ∧
      L (.sign i o) t (w' ++ (e.spelled ++ k)) ∧ L .space w' (e.spelled ++ k) ∧ e.Reads L k := by
  simp

@[simp] theorem spelled_minus (e) : (minus w e).spelled = '-' :: (w ++ e.spelled) := by
  simp

@[simp] theorem reads_minus {e} : (minus w e).Reads L k ↔
    L (.symbol '-') ['-'] (w ++ (e.spelled ++ k)) ∧ L .space w (e.spelled ++ k) ∧
      e.Reads L k := by
  simp

@[simp] theorem spelled_single (e) : (single e).spelled = e.spelled := rfl

@[simp] theorem reads_single {e} : (single e).Reads L k ↔ e.Reads L k := Iff.rfl

@[simp] theorem spelled_factor (a ts) : (factor a ts).spelled = a.spelled ++ ts.spelled := by
  simp

@[simp] theorem reads_factor {a ts} :
    (factor a ts).Reads L k ↔ a.Reads L (ts.spelled ++ k) ∧ ts.Reads L k := by
  simp

@[simp] theorem spelled_nextTrailer (x) : (nextTrailer w x).spelled = w ++ x.spelled := by
  simp

@[simp] theorem reads_nextTrailer {x} :
    (nextTrailer w x).Reads L k ↔ L .space w (x.spelled ++ k) ∧ x.Reads L k := by
  simp

/-- The arguments of a call stand in parentheses, with white space inside. -/
@[simp] theorem spelled_call (es) :
    (call w es w').spelled = '(' :: (w ++ (es.spelled ++ (w' ++ [')']))) := by
  simp

@[simp] theorem reads_call {es} : (call w es w').Reads L k ↔
    L (.symbol '(') ['('] (w ++ (es.spelled ++ (w' ++ ')' :: k))) ∧
      L .space w (es.spelled ++ (w' ++ ')' :: k)) ∧ es.Reads L (w' ++ ')' :: k) ∧
      L .space w' (')' :: k) ∧ L (.symbol ')') [')'] k := by
  simp

@[simp] theorem spelled_index (e) : (index e).spelled = '[' :: (e.spelled ++ [']']) := by
  simp

@[simp] theorem reads_index {e} : (index e).Reads L k ↔
    L (.symbol '[') ['['] (e.spelled ++ ']' :: k) ∧ e.Reads L (']' :: k) ∧
      L (.symbol ']') [']'] k := by
  simp

@[simp] theorem spelled_member : (member w n).spelled = '.' :: (w ++ n) := by
  simp

@[simp] theorem reads_member : (member w n).Reads L k ↔
    L (.symbol '.') ['.'] (w ++ (n ++ k)) ∧ L .space w (n ++ k) ∧ L .name n k := by
  simp

@[simp] theorem spelled_number : (number t).spelled = t := List.append_nil t

@[simp] theorem reads_number : (number t).Reads L k ↔ L .number t k := and_iff_left trivial

@[simp] theorem spelled_text : (text t).spelled = t := List.append_nil t

@[simp] theorem reads_text : (text t).Reads L k ↔ L .text t k := and_iff_left trivial

@[simp] theorem spelled_truth : (truth t).spelled = t := List.append_nil t

@[simp] theorem reads_truth : (truth t).Reads L k ↔ L .truth t k := and_iff_left trivial

@[simp] theorem spelled_null : (null t).spelled = t := List.append_nil t

@[simp] theorem reads_null : (null t).Reads L k ↔ L .null t k := and_iff_left trivial

@[simp] theorem spelled_var : (var n).spelled = n := List.append_nil n

@[simp] theorem reads_var : (var n).Reads L k ↔ L .name n k := and_iff_left trivial

@[simp] theorem spelled_inner (e) : (inner e).spelled = '(' :: (e.spelled ++ [')']) := by
  simp

@[simp] theorem reads_inner {e} : (inner e).Reads L k ↔
    L (.symbol '(') ['('] (e.spelled ++ ')' :: k) ∧ e.Reads L (')' :: k) ∧
      L (.symbol ')') [')'] k := by
  simp

@[simp] theorem spelled_list (es) :
    (list w es w').spelled = '[' :: (w ++ (es.spelled ++ (w' ++ [']']))) := by
  simp

@[simp] theorem reads_list {es} : (list w es w').Reads L k ↔
    L (.symbol '[') ['['] (w ++ (es.spelled ++ (w' ++ ']' :: k))) ∧
      L .space w (es.spelled ++ (w' ++ ']' :: k)) ∧ es.Reads L (w' ++ ']' :: k) ∧
      L .space w' (']' :: k) ∧ L (.symbol ']') [']'] k := by
  simp

@[simp] theorem spelled_dict (ps) :
    (dict w ps w').spelled = '\x7b' :: (w ++ (ps.spelled ++ (w' ++ ['\x7d']))) := by
  simp

@[simp] theorem reads_dict {ps} : (dict w ps w').Reads L k ↔
    L (.symbol '\x7b') ['\x7b'] (w ++ (ps.spelled ++ (w' ++ '\x7d' :: k))) ∧
      L .space w (ps.spelled ++ (w' ++ '\x7d' :: k)) ∧ ps.Reads L (w' ++ '\x7d' :: k) ∧
      L .space w' ('\x7d' :: k) ∧ L (.symbol '\x7d') ['\x7d'] k := by
  simp

@[simp] theorem spelled_series {p hp} (a as) :
    (series p hp a as).spelled = a.spelled ++ as.spelled := by
  simp

@[simp] theorem reads_series {p hp a as} :
    (series p hp a as).Reads L k ↔ a.Reads L (as.spelled ++ k) ∧ as.Reads L k := by
  simp

@[simp] theorem spelled_nextItem {p} (a) : (nextItem p a).spelled = ',' :: a.spelled := rfl

@[simp] theorem reads_nextItem {p a} :
    (nextItem p a).Reads L k ↔ L (.symbol ',') [','] (a.spelled ++ k) ∧ a.Reads L k := Iff.rfl

/-- A colon stands between a key and a value. -/
@[simp] theorem spelled_pair (d e) :
    (pair w d w' e).spelled = w ++ (d.spelled ++ (w' ++ ':' :: e.spelled)) := by
  simp

@[simp] theorem reads_pair {d e} : (pair w d w' e).Reads L k ↔
    L .space w (d.spelled ++ (w' ++ ':' :: (e.spelled ++ k))) ∧
      d.Reads L (w' ++ ':' :: (e.spelled ++ k)) ∧ L .space w' (':' :: (e.spelled ++ k)) ∧
      L (.symbol ':') [':'] (e.spelled ++ k) ∧ e.Reads L k := by
  simp

@[simp] theorem spelled_textKey : (textKey t).spelled = t := List.append_nil t

@[simp] theorem reads_textKey : (textKey t).Reads L k ↔ L .text t k := and_iff_left trivial

@[simp] theorem spelled_numberKey : (numberKey t).spelled = t := List.append_nil t

@[simp] theorem reads_numberKey : (numberKey t).Reads L k ↔ L .number t k := and_iff_left trivial

@[simp] theorem spelled_nameKey : (nameKey n).spelled = n := List.append_nil n

@[simp] theorem reads_nameKey : (nameKey n).Reads L k ↔ L .name n k := and_iff_left trivial

@[simp] theorem spelled_absent (p) : (absent p).spelled = [] := rfl

@[simp] theorem reads_absent {p} : (absent p).Reads L k := trivial

@[simp] theorem spelled_present {p} (a) : (present p a).spelled = a.spelled := rfl

@[simp] theorem reads_present {p a} : (present p a).Reads L k ↔ a.Reads L k := Iff.rfl

@[simp] theorem spelled_nil (p) : (nil p).spelled = [] := rfl

@[simp] theorem reads_nil {p} : (nil p).Reads L k := trivial

@[simp] theorem spelled_cons {p} (a as) : (cons p a as).spelled = a.spelled ++ as.spelled := by
  simp

@[simp] theorem reads_cons {p a as} :
    (cons p a as).Reads L k ↔ a.Reads L (as.spelled ++ k) ∧ as.Reads L k := by
  simp

end Parts

end Tree
end Trellis.Expr
