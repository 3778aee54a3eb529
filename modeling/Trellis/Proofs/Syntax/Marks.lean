import Trellis.Proofs.Syntax.Derivation

/-!
# Proofs — Syntax — Marks

The tokens that an expression is made of, in the order of its text.  White space and parentheses
leave no mark; a text leaves the same mark whether it is a name or is written in quotes.

`Tree.marks_image`: the marks of the expression that a derivation stands for are those of its
lexemes.  So no lexeme of a derivation is missing from the expression, duplicated in it or moved.
-/

namespace Trellis

/-- Tokens of an expression. -/
inductive Mark where
  | literal (l : Literal)
  | text (s : String)
  | symbol (c : Char)
  | operator (o : Operator)
  | connective (c : Expr.Connective)
  | denial

/-- The mark of a literal. -/
def Literal.mark : Literal → Mark
  | text s => .text s
  | l      => .literal l

namespace Expr

mutual

/-- The marks of an expression. -/
def marks : Expr → List Mark
  | literal l       => [l.mark]
  | var n           => [.text n]
  | factor e ts     => e.marks ++ marksOfTails ts
  | chain e ss      => e.marks ++ marksOfSteps ss
  | neg e           => .symbol '-' :: e.marks
  | not e           => .denial :: e.marks
  | conj es         => marksBetween (.connective .conj) es
  | disj es         => marksBetween (.connective .disj) es
  | choice test y n => test.marks ++ .symbol '?' :: y.marks ++ .symbol ':' :: n.marks
  | list es         => .symbol '[' :: marksBetween (.symbol ',') es ++ [.symbol ']']
  | dict ps         => .symbol '\x7b' :: marksOfPairs ps ++ [.symbol '\x7d']
termination_by structural e => e

/-- The marks of expressions with a separator between them. -/
def marksBetween (sep : Mark) : List Expr → List Mark
  | []      => []
  | e :: es => e.marks ++ marksAfter sep es
termination_by structural es => es

/-- The marks of expressions with a separator before each. -/
def marksAfter (sep : Mark) : List Expr → List Mark
  | []      => []
  | e :: es => sep :: e.marks ++ marksAfter sep es
termination_by structural es => es

/-- The marks of operators with their right operands. -/
def marksOfSteps : List (Operator × Expr) → List Mark
  | []      => []
  | s :: ss => marksOfStep s ++ marksOfSteps ss
termination_by structural ss => ss

/-- The marks of an operator with its right operand. -/
def marksOfStep : Operator × Expr → List Mark
  | (o, e) => .operator o :: e.marks
termination_by structural s => s

/-- The marks of pairs with commas between them. -/
def marksOfPairs : List (Literal × Expr) → List Mark
  | []      => []
  | p :: ps => marksOfPair p ++ marksAfterPairs ps
termination_by structural ps => ps

/-- The marks of pairs with a comma before each. -/
def marksAfterPairs : List (Literal × Expr) → List Mark
  | []      => []
  | p :: ps => .symbol ',' :: marksOfPair p ++ marksAfterPairs ps
termination_by structural ps => ps

/-- The marks of a pair. -/
def marksOfPair : Literal × Expr → List Mark
  | (k, e) => k.mark :: .symbol ':' :: e.marks
termination_by structural p => p

/-- The marks of calls, indices and members. -/
def marksOfTails : List Tail → List Mark
  | []      => []
  | t :: ts => marksOfTail t ++ marksOfTails ts
termination_by structural ts => ts

/-- The marks of a call, an index or a member. -/
def marksOfTail : Tail → List Mark
  | .call es  => marksBetween (.symbol ',') es
  | .index e  => .symbol '[' :: e.marks ++ [.symbol ']']
  | .member n => [.symbol '.', .text n]
termination_by structural t => t

end

/-- The marks of items behind separators are those of the items, each behind one. -/
theorem marksAfter_eq (sep : Mark) (es : List Expr) :
    marksAfter sep es = es.flatMap fun e => sep :: e.marks := by
  induction es with
  | nil => rfl
  | cons e es ih => rw [marksAfter, ih, List.flatMap_cons]

theorem marksOfSteps_eq (ss : List (Operator × Expr)) :
    marksOfSteps ss = ss.flatMap marksOfStep := by
  induction ss with
  | nil => rfl
  | cons s ss ih => rw [marksOfSteps, ih, List.flatMap_cons]

theorem marksAfterPairs_eq (ps : List (Literal × Expr)) :
    marksAfterPairs ps = ps.flatMap fun p => .symbol ',' :: marksOfPair p := by
  induction ps with
  | nil => rfl
  | cons p ps ih => rw [marksAfterPairs, ih, List.flatMap_cons]

/-- The marks of calls, indices and members are those of each in turn. -/
theorem marksOfTails_eq (ts : List Tail) : marksOfTails ts = ts.flatMap marksOfTail := by
  induction ts with
  | nil => rfl
  | cons t ts ih => rw [marksOfTails, ih, List.flatMap_cons]

/-! ### Marks of chains, factors and connectives that may be empty -/

/-- The marks of a chain are those of its first operand and then of its steps. -/
theorem marks_chainOf (e : Expr) (ss : List (Operator × Expr)) :
    (chainOf e ss).marks = e.marks ++ ss.flatMap marksOfStep := by
  cases ss with
  | nil => simp [chainOf]
  | cons s ss => rw [chainOf, marks, marksOfSteps_eq]; nofun

/-- The marks of a factor are those of its atom and then of what stands behind it. -/
theorem marks_factorOf (e : Expr) (ts : List Tail) :
    (factorOf e ts).marks = e.marks ++ ts.flatMap marksOfTail := by
  cases ts with
  | nil => simp [factorOf]
  | cons t ts => rw [factorOf, marks, marksOfTails_eq]; nofun

/-- The marks of operands stand behind the connective, except those of the first. -/
theorem marks_conjOf (e : Expr) (es : List Expr) :
    (conjOf e es).marks = e.marks ++ es.flatMap fun e => .connective .conj :: e.marks := by
  cases es with
  | nil => simp [conjOf]
  | cons e' es => rw [conjOf, marks, marksBetween, marksAfter_eq]; nofun

theorem marks_disjOf (e : Expr) (es : List Expr) :
    (disjOf e es).marks = e.marks ++ es.flatMap fun e => .connective .disj :: e.marks := by
  cases es with
  | nil => simp [disjOf]
  | cons e' es => rw [disjOf, marks, marksBetween, marksAfter_eq]; nofun

/-! ### Marks of derivations -/

/-- The marks of what a phrase stands for. -/
def Phrase.marks : (p : Phrase) → p.Value → List Mark
  | level _, e            => Expr.marks e
  | operand c, e          => .connective c :: Expr.marks e
  | branches, (yes, no)   => .symbol '?' :: Expr.marks yes ++ .symbol ':' :: Expr.marks no
  | step _, s             => marksOfStep s
  | nextTrailer, t        => marksOfTail t
  | trailer, t            => marksOfTail t
  | series _, []          => []
  | series p, a :: as     => p.marks a ++ as.flatMap fun a => .symbol ',' :: p.marks a
  | nextItem p, a         => .symbol ',' :: p.marks a
  | pair, p               => marksOfPair p
  | key, k                => [k.mark]

/-- The marks of what a form stands for. -/
def Form.marks : (f : Form) → f.Value → List Mark
  | one p, a          => p.marks a
  | many p, as        => as.flatMap p.marks
  | perhaps _, none   => []
  | perhaps p, some a => p.marks a

/-- The marks of expressions between commas, if there are any. -/
theorem marksBetween_orNothing (es : Option (List Expr)) :
    marksBetween (.symbol ',') (Rule.orNothing es) =
      Form.marks (.perhaps (.series (.level .expr))) es := by
  rcases es with _ | _ | ⟨e, es⟩
  · rfl
  · rfl
  · rw [Rule.orNothing, marksBetween, marksAfter_eq]
    rfl

/-- The marks of pairs between commas, if there are any. -/
theorem marksOfPairs_orNothing (ps : Option (List (Literal × Expr))) :
    marksOfPairs (Rule.orNothing ps) = Form.marks (.perhaps (.series .pair)) ps := by
  rcases ps with _ | _ | ⟨p, ps⟩
  · rfl
  · rfl
  · rw [Rule.orNothing, marksOfPairs, marksAfterPairs_eq]
    rfl

/-- The marks that a lexeme leaves. -/
def Lexeme.marks : Lexeme → List Char → List Mark
  | space, _        => []
  | symbol c, _     => if c = '(' || c = ')' then [] else [.symbol c]
  | number, t       => [(Token.numberLiteral t).mark]
  | text, t         => [.text (Token.unquote t)]
  | truth, t        => [.literal (.truth (t = "true".toList || t = "True".toList))]
  | null, _         => [.literal .null]
  | name, t         => [.text (String.ofList t)]
  | denial, _       => [.denial]
  | connective c, _ => [.connective c]
  | sign _ o, _     => [.operator o]

/-- The marks that a sequence of lexemes leaves. -/
def Writing.marks (ls : Writing) : List Mark := ls.flatMap fun l => l.1.marks l.2

@[simp] theorem Writing.marks_nil : Writing.marks [] = [] := rfl

@[simp] theorem Writing.marks_cons (x : Lexeme) (t : List Char) (ls : Writing) :
    Writing.marks ((x, t) :: ls) = x.marks t ++ Writing.marks ls := rfl

/-- The marks of a writing are those of its parts, from left to right. -/
@[simp] theorem Writing.marks_append (ls ls' : Writing) :
    Writing.marks (ls ++ ls') = Writing.marks ls ++ Writing.marks ls' := by
  simp [marks]

section

attribute [local simp] Tree.image Tree.lexemes Lexeme.marks Form.marks Phrase.marks

/-- **Nothing is lost, duplicated or moved.**  The marks of what a derivation stands for are those
that its lexemes leave, in the same order. -/
theorem Tree.marks_image {f : Form} (d : Tree f) : f.marks d.image = d.lexemes.marks := by
  induction d with
  | expr _ e _ ih => simp [← ih]
  | choice test b iht ihb =>
      cases hb : b.image <;> simp [← iht, ← ihb, hb, Expr.marks]
  | branches _ _ yes _ _ no ihy ihn => simp [← ihy, ← ihn]
  | logic c e es ihe ihs =>
      cases c <;> simp [← ihe, ← ihs, marks_conjOf, marks_disjOf]
  | operand _ _ _ _ e ih => simp [← ih]
  | denial _ _ e ih => simp [← ih, Expr.marks]
  | comparison e ih => simp [← ih]
  | chain i e ss ihe ihs => simp [← ihe, ← ihs, marks_chainOf]
  | step _ _ o _ _ e ih => simp [← ih, marksOfStep]
  | minus _ e ih => simp [← ih, Expr.marks]
  | single e ih => simp [← ih]
  | factor a ts iha iht => simp [← iha, ← iht, marks_factorOf]
  | nextTrailer _ t ih => simp [← ih]
  | call _ es _ ih =>
      rw [Form.marks, Phrase.marks, image, marksOfTail, marksBetween_orNothing, ih]
      simp
  | index e ih => simp [← ih, marksOfTail]
  | member _ n => simp [marksOfTail]
  | number t | text t | truth t | null t => simp [Expr.marks, Literal.mark]
  | var n => simp [Expr.marks]
  | inner e ih => simp [← ih]
  | list _ es _ ih =>
      rw [Form.marks, Phrase.marks, image, Expr.marks, marksBetween_orNothing, ih]
      simp
  | dict _ ps _ ih =>
      rw [Form.marks, Phrase.marks, image, Expr.marks, marksOfPairs_orNothing, ih]
      simp
  | series p _ a as iha ihs => simp [← iha, ← ihs]
  | nextItem p a ih => simp [← ih]
  | pair _ k _ e ihk ihe => simp [← ihk, ← ihe, marksOfPair]
  | textKey t | numberKey t | nameKey t => simp [Literal.mark]
  | absent p => rfl
  | present p a ih => simp [← ih]
  | nil p => rfl
  | cons p a as iha ihs => simp [← iha, ← ihs]

end

end Expr
end Trellis
