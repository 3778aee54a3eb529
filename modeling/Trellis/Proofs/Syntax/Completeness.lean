import Trellis.Proofs.Syntax.Following

/-!
# Proofs — Syntax — Completeness

Every derivation whose lexemes are written as the matchers take them is found by the matchers,
wherever no operator that could go on with it follows (`Tree.isFound`).  One lemma for each rule says
when it spans a text, one when it fails; with these, one lemma for each kind of derivation says that
it is found if its parts are (`Tree.IsFound`), and the result is by induction on the derivation.
-/

namespace Trellis.Expr

open Matcher
open Trellis.Text (isSpace)

/-! ### Matchers of phrases -/

/-- The matcher of a level, over the rules for expressions nested less deep. -/
def Level.matcher (r : Rules) : Level → Matcher Expr
  | expr              => r.next.expr
  | choice            => r.next.choice
  | logic .disj       => Rule.disjunction r.next.negation
  | logic .conj       => Rule.conjunction r.next.negation
  | negation          => r.next.negation
  | chain .comparison => Rule.comparison r.next.unary
  | chain .sum        => Rule.sum r.next.unary
  | chain .product    => Rule.product r.next.unary
  | unary             => r.next.unary
  | factor            => Rule.factor r.expr
  | atom              => Rule.atom r.expr

/-- The matcher of a phrase, over the rules for expressions nested less deep. -/
def Phrase.matcher (r : Rules) : (p : Phrase) → Matcher p.Value
  | level l     => l.matcher r
  | branches    => Rule.branches r.choice
  | operand c   => Rule.nextOperand (Rule.symbolOrWord c.pattern) (c.operand.matcher r)
  | step i      => Rule.step (i.operand.matcher r) (Rule.operator i.signs)
  | nextTrailer => Rule.nextTrailer r.expr
  | trailer     => Rule.trailer r.expr
  | series p    => Rule.series (p.matcher r)
  | nextItem p  => Rule.nextItem (p.matcher r)
  | pair        => Rule.pair r.expr
  | key         => Rule.key

variable {k u v w t : List Char} {e : Expr} {α : Type}

/-! ### Lexemes -/

/-- White space that cannot go on is taken as a gap. -/
theorem spans_gap (h : greedy .space w k) : Spans Rule.gap w () k :=
  (Spans.token h).map fun _ => ()

/-- A symbol is taken where it stands. -/
theorem spans_symbol {s : String} {x : Char} (hs : s.toList = [x]) (k : List Char) :
    Spans (Rule.symbol s) [x] () k := by
  refine Spans.map (.token ?_) fun _ => ()
  rw [hs]
  exact Token.exactly_eq_some.mpr ⟨rfl, rfl⟩

/-- It is not found where another character stands. -/
theorem fails_symbol {s : String} {x : Char} (hs : s.toList = [x])
    (hk : ∀ c ∈ k.head?, c ≠ x) : FailsAt (Rule.symbol s) k := by
  refine .bind (.token ?_) _
  rw [hs]
  refine (Token.starts_exactly (q := (· == x)) (by simp)).eq_none (Token.exact_exactly _) ?_
  exact fun c hc => beq_eq_false_iff_ne.mpr (hk c hc)

/-- A name is taken whole. -/
theorem spans_name (h : greedy .name t k) : Spans Rule.name t (String.ofList t) k := by
  have hres : FailsAt Rule.reservedName (t ++ k) := .named (.bind (.token h.1) _)
  exact .named (.bind (u := []) (.absent hres) (.map (.token h.2) _))

/-- No name is found where none starts. -/
theorem fails_name (hk : ∀ c ∈ k.head?, Token.startsName c = false) : FailsAt Rule.name k := by
  intro o
  have h : Token.identifier k = none := Token.starts_identifier.eq_none Token.exact_identifier hk
  simp only [Rule.name, found_named, found_bind, found_absent]
  split
  · rfl
  · simp [h]

/-- The first sign that fits is taken as its operator. -/
theorem spans_operator {i : Tier} {o : Operator} (h : greedy (.sign i o) t k) :
    Spans (Rule.operator i.signs) t o k := by
  intro n
  rw [Finds, found_operator, show Token.firstSign i.signs (t ++ k) = _ from h]
  rfl

/-- No operator is found where no sign starts. -/
theorem fails_operator {i : Tier} (hk : ∀ c ∈ k.head?, i.starts c = false) :
    FailsAt (Rule.operator i.signs) k := by
  intro n
  have h : Token.firstSign i.signs k = none :=
    firstSign_eq_none.mpr fun c hc => (i.exact_starts c hc).2.eq_none (i.exact_starts c hc).1 hk
  rw [found_operator, h, Option.map_none]

/-- A symbol or a word is taken as its pattern takes it. -/
theorem spans_symbolOrWord {q : Pattern} (h : q.Takes t k) : Spans (Rule.symbolOrWord q) t () k :=
  .named ((Spans.token h).map fun _ => ())

theorem fails_symbolOrWord {q : Pattern} (h : q k = none) : FailsAt (Rule.symbolOrWord q) k :=
  .named (.bind (.token h) _)

/-- A matcher that fails after white space. -/
theorem fails_after_gap {β : Type} {f : Unit → Matcher β}
    (h : FailsAt (f ()) (k.dropWhile isSpace)) : FailsAt (Rule.gap >>= f) k := by
  have hw : greedy .space (k.takeWhile isSpace) (k.dropWhile isSpace) := by
    refine greedy_space.mpr ⟨List.all_eq_true.mp List.all_takeWhile, fun c hc => ?_⟩
    have := List.head?_dropWhile_not isSpace k
    rw [hc] at this
    exact this
  rw [← List.takeWhile_append_dropWhile (p := isSpace) (l := k)]
  exact .after (spans_gap hw) h

/-! ### Literals -/

/-- A number is taken whole, with its value. -/
theorem spans_number (h : Token.number.Takes t k) :
    Spans Rule.number t (Token.numberLiteral t) k :=
  .named ((Spans.token h).map _)

/-- So is a text, without its quotes. -/
theorem spans_text (h : Token.quoted.Takes t k) :
    Spans Rule.text t (.text (Token.unquote t)) k :=
  .named ((Spans.token h).map _)

/-- No number is found where none starts. -/
theorem fails_number (hk : ∀ c ∈ k.head?, Token.startsNumber c = false) :
    FailsAt Rule.number k :=
  .named (.bind (.token (Token.starts_number.eq_none Token.exact_number hk)) _)

/-- No text is found where no quote stands. -/
theorem fails_text (hk : ∀ c ∈ k.head?, Token.startsText c = false) : FailsAt Rule.text k :=
  .named (.bind (.token (Token.starts_quoted.eq_none Token.exact_quoted hk)) _)

theorem fails_truth (h : Token.truthWord k = none) : FailsAt Rule.truth k :=
  .named (.bind (.token h) _)

theorem fails_null (h : Token.nullWord k = none) : FailsAt Rule.null k :=
  .named (.bind (.token h) _)

/-- A character that no number, text, word or name starts with. -/
def isPunctuation (c : Char) : Bool :=
  !(Token.startsNumber c || Token.startsText c || Token.startsTruth c || Token.startsNull c ||
    Token.startsName c)

/-- No literal is found in front of punctuation. -/
theorem fails_literal (hk : ∀ c ∈ k.head?, isPunctuation c = true) : FailsAt Rule.literal k := by
  have h : ∀ c ∈ k.head?, Token.startsNumber c = false ∧ Token.startsText c = false ∧
      Token.startsTruth c = false ∧ Token.startsNull c = false := by
    intro c hc
    have := hk c hc
    simp only [isPunctuation, Bool.not_eq_true', Bool.or_eq_false_iff] at this
    exact ⟨this.1.1.1.1, this.1.1.1.2, this.1.1.2, this.1.2⟩
  refine .named (.firstOf fun m hm => ?_)
  simp only [List.mem_cons, List.not_mem_nil, or_false] at hm
  rcases hm with rfl | rfl | rfl | rfl
  · exact fails_number fun c hc => (h c hc).1
  · exact fails_text fun c hc => (h c hc).2.1
  · exact fails_truth (Token.starts_truthWord.eq_none Token.exact_truthWord fun c hc =>
      (h c hc).2.2.1)
  · exact fails_null (Token.starts_nullWord.eq_none Token.exact_nullWord fun c hc =>
      (h c hc).2.2.2)

/-- Nor is a name. -/
theorem fails_var (hk : ∀ c ∈ k.head?, isPunctuation c = true) : FailsAt Rule.var k := by
  refine .named (.bind (fails_name fun c hc => ?_) _)
  have := hk c hc
  simp only [isPunctuation, Bool.not_eq_true', Bool.or_eq_false_iff] at this
  exact this.2

/-- A text is a literal: it is no number. -/
theorem spans_literal_text (h : greedy .text t k) :
    Spans Rule.literal t (.text (Token.unquote t)) k :=
  .named (.firstOf_tail
    (fails_number (greedy_head (by nofun) h fun _ => Token.not_of_contains (by decide)))
    (.firstOf_head (spans_text h)))

/-- A word for a truth value is a literal, since nothing else starts as it does. -/
theorem spans_literal_truth (h : greedy .truth t k) :
    Spans Rule.literal t (.truth (t = "true".toList || t = "True".toList)) k :=
  .named (.firstOf_tail
    (fails_number (greedy_head (by nofun) h fun _ => Token.not_of_contains (by decide)))
    (.firstOf_tail
      (fails_text (greedy_head (by nofun) h fun _ => Token.not_of_contains (by decide)))
      (.firstOf_head (.named ((Spans.token h).map _)))))

/-- So is the word for nothing. -/
theorem spans_literal_null (h : greedy .null t k) : Spans Rule.literal t .null k := by
  have truth : Token.truthWord (t ++ k) = none :=
    Token.starts_truthWord.eq_none Token.exact_truthWord
      (greedy_head (by nofun) h fun _ => Token.not_of_contains (by decide))
  exact .named (.firstOf_tail
    (fails_number (greedy_head (by nofun) h fun _ => Token.not_of_contains (by decide)))
    (.firstOf_tail
      (fails_text (greedy_head (by nofun) h fun _ => Token.not_of_contains (by decide)))
      (.firstOf_tail (fails_truth truth)
        (.firstOf_head (.named ((Spans.token h).map _))))))

/-- A name is no literal, since words are taken whole. -/
theorem fails_literal_name (h : greedy .name t k) : FailsAt Rule.literal (t ++ k) := by
  have words {ws : List String} (hws : ∀ w ∈ ws, w ∈ Token.reserved) :
      Token.oneOf (ws.map Token.word) (t ++ k) = none := by
    refine Token.oneOf_eq_none fun p hp => ?_
    obtain ⟨w, hw, rfl⟩ := List.mem_map.mp hp
    exact Token.word_eq_none_of_reservedWord (hws w hw) h.1
  refine .named (.firstOf fun m hm => ?_)
  simp only [List.mem_cons, List.not_mem_nil, or_false] at hm
  rcases hm with rfl | rfl | rfl | rfl
  · exact fails_number (greedy_head (by nofun) h fun _ => Token.startsNumber_of_startsName)
  · exact fails_text (greedy_head (by nofun) h fun _ => Token.not_contains (by decide))
  · exact fails_truth (words (by decide))
  · exact fails_null (words (by decide))

/-! ### Brackets -/

section Brackets

variable {expr : Matcher Expr}

/-- An expression between parentheses is taken with them. -/
theorem spans_inner (h : Spans expr u e (')' :: k)) :
    Spans (Rule.inner expr) ('(' :: (u ++ [')'])) e k :=
  .named (.bind (u := ['(']) (spans_symbol rfl _) (.bind h (.map (spans_symbol rfl k) _)))

/-- An index is taken with its brackets. -/
theorem spans_index (h : Spans expr u e (']' :: k)) :
    Spans (Rule.index expr) ('[' :: (u ++ [']'])) (.index e) k :=
  .named (.bind (u := ['[']) (spans_symbol rfl _) (.bind h (.map (spans_symbol rfl k) _)))

/-- A member is taken with its point. -/
theorem spans_member (hw : greedy .space w (t ++ k)) (ht : greedy .name t k) :
    Spans Rule.member ('.' :: (w ++ t)) (.member (String.ofList t)) k :=
  .named (.bind (u := ['.']) (spans_symbol rfl _) (.bind (spans_gap hw) (.map (spans_name ht) _)))

/-- A series in brackets with white space on both sides. -/
theorem spans_bracketed {l r : String} {x y : Char} (hl : l.toList = [x]) (hr : r.toList = [y])
    {m : Matcher (Option (List α))} {as : Option (List α)} {β : Type} (g : List α → β)
    (hw : greedy .space w (u ++ (v ++ y :: k))) (hm : Spans m u as (v ++ y :: k))
    (hv : greedy .space v (y :: k)) :
    Spans (do
      Rule.symbol l
      Rule.gap
      let as ← m
      Rule.gap
      Rule.symbol r
      return g (Rule.orNothing as)) (x :: (w ++ (u ++ (v ++ [y])))) (g (Rule.orNothing as)) k := by
  refine .bind (u := [x]) (spans_symbol hl _) (.bind (spans_gap ?_) (.bind ?_ (.bind (spans_gap hv)
    (.map (spans_symbol hr k) _))))
  · simpa using hw
  · simpa using hm

/-! ### Atoms -/

/-- A literal is the first kind of atom that is tried. -/
theorem spans_atom_literal {l : Literal} (h : Spans Rule.literal t l k) :
    Spans (Rule.atom expr) t (.literal l) k :=
  .named (.firstOf_head (h.map _))

/-- A name is an atom where no literal is found. -/
theorem spans_atom_var (h : greedy .name t k) :
    Spans (Rule.atom expr) t (.var (String.ofList t)) k :=
  .named (.firstOf_tail (.bind (fails_literal_name h) _)
    (.firstOf_head (.named ((spans_name h).map _))))

/-- An atom in brackets, which no literal or name starts with. -/
theorem spans_atom_bracket {c : Char} (hc : isPunctuation c = true)
    (h : Spans (firstOf [Rule.inner expr, Rule.list expr, Rule.dict expr]) (c :: u) e k) :
    Spans (Rule.atom expr) (c :: u) e k := by
  have hk : ∀ a ∈ (c :: u ++ k).head?, isPunctuation a = true := by
    intro a ha
    obtain rfl := Option.some.inj ha
    exact hc
  exact .named (.firstOf_tail (.bind (fails_literal hk) _) (.firstOf_tail (fails_var hk) h))

/-- Parentheses are tried behind literals and names. -/
theorem spans_atom_inner (h : Spans (Rule.inner expr) ('(' :: u) e k) :
    Spans (Rule.atom expr) ('(' :: u) e k :=
  spans_atom_bracket rfl (.firstOf_head h)

/-- Without a parenthesis there is none. -/
theorem fails_inner (hk : ∀ c ∈ k.head?, c ≠ '(') : FailsAt (Rule.inner expr) k :=
  .named (.bind (fails_symbol rfl hk) _)

theorem fails_list (hk : ∀ c ∈ k.head?, c ≠ '[') : FailsAt (Rule.list expr) k :=
  .named (.bind (fails_symbol rfl hk) _)

theorem fails_dict (hk : ∀ c ∈ k.head?, c ≠ '\x7b') : FailsAt (Rule.dict expr) k :=
  .named (.bind (fails_symbol rfl hk) _)

/-- Lists are tried behind parentheses. -/
theorem spans_atom_list (h : Spans (Rule.list expr) ('[' :: u) e k) :
    Spans (Rule.atom expr) ('[' :: u) e k :=
  spans_atom_bracket rfl (.firstOf_tail (fails_inner (by simp)) (.firstOf_head h))

/-- Dictionaries are tried last. -/
theorem spans_atom_dict (h : Spans (Rule.dict expr) ('\x7b' :: u) e k) :
    Spans (Rule.atom expr) ('\x7b' :: u) e k :=
  spans_atom_bracket rfl (.firstOf_tail (fails_inner (by simp))
    (.firstOf_tail (fails_list (by simp)) (.firstOf_head h)))

end Brackets

/-! ### Where nothing can start -/

/-- The characters that close brackets. -/
def closers : List Char := [')', ']', '\x7d']

/-- The text is empty or starts with a closing bracket. -/
def Closed (k : List Char) : Prop := ∀ c ∈ k.head?, closers.contains c = true

/-- What holds of all characters that close holds of what stands first. -/
theorem Closed.of_forall (hk : Closed k) {q : Char → Bool} (h : ∀ c ∈ closers, q c = true) :
    ∀ c ∈ k.head?, q c = true :=
  fun c hc => h c (List.contains_iff_mem.mp (hk c hc))

theorem Closed.ne (hk : Closed k) {a : Char} (ha : a ∉ closers) : ∀ c ∈ k.head?, c ≠ a := by
  rintro c hc rfl
  exact ha (List.contains_iff_mem.mp (hk c hc))

/-- Where no operator can go on, something closes behind the white space. -/
theorem closed_of_follows (h : Follows 0 k) : Closed (k.dropWhile isSpace) := by
  intro c hc
  have h0 : rank c = 0 := Nat.le_zero.mp (h c hc)
  rw [rank, operatorStarts, List.findIdx_cons] at h0
  cases hcl : closers.contains c with
  | true => rfl
  | false =>
      rw [show [')', ']', '\x7d'].contains c = false from hcl] at h0
      cases h0

section Closed

variable {expr unary negation choice : Matcher Expr} (hk : Closed k)
include hk

/-- Nothing that closes begins a factor. -/
theorem fails_factor : FailsAt (Rule.factor expr) k := by
  have punctuation := hk.of_forall (q := isPunctuation) (by decide)
  refine .named (.bind (.named (.firstOf fun m hm => ?_)) _)
  simp only [List.mem_cons, List.not_mem_nil, or_false] at hm
  rcases hm with rfl | rfl | rfl | rfl | rfl
  · exact .bind (fails_literal punctuation) _
  · exact fails_var punctuation
  · exact fails_inner (hk.ne (by decide))
  · exact fails_list (hk.ne (by decide))
  · exact fails_dict (hk.ne (by decide))

/-- Nor does it begin a comparison. -/
theorem fails_comparison : FailsAt (Rule.comparison (Rule.unary expr unary)) k := by
  refine .named (.bind (.named (.bind (.named (.bind (.named (.firstOf fun m hm => ?_)) _)) _)) _)
  simp only [List.mem_cons, List.not_mem_nil, or_false] at hm
  rcases hm with rfl | rfl
  · exact .named (.bind (fails_symbol rfl (hk.ne (by decide))) _)
  · exact fails_factor hk

/-- Nor does it begin a choice. -/
theorem fails_choice :
    FailsAt (Rule.choice (Rule.negation (Rule.unary expr unary) negation) choice) k := by
  refine .named (.bind (.named (.bind (.named (.bind (.named (.firstOf fun m hm => ?_)) _)) _)) _)
  simp only [List.mem_cons, List.not_mem_nil, or_false] at hm
  rcases hm with rfl | rfl
  · refine .named (.bind (fails_symbolOrWord ?_) _)
    refine Token.starts_denial.eq_none Token.exact_denial fun c hc => ?_
    exact Token.not_contains (q := closers.contains) (by decide) (hk c hc)
  · exact fails_comparison hk

/-- Nor does it begin a key. -/
theorem fails_key : FailsAt Rule.key k := by
  refine .named (.firstOf fun m hm => ?_)
  simp only [List.mem_cons, List.not_mem_nil, or_false] at hm
  rcases hm with rfl | rfl | rfl
  · exact fails_text fun c hc => Token.not_of_contains (by decide) (hk c hc)
  · exact fails_number fun c hc => Token.not_of_contains (by decide) (hk c hc)
  · exact .bind (fails_name fun c hc => Token.not_of_contains (by decide) (hk c hc)) _

end Closed

/-- No item of a series is found in front of a closing bracket. -/
theorem fails_item {p : Phrase} (hp : p.isItem = true) (h : Follows 0 k) (r : Rules) :
    FailsAt (p.matcher r) k := by
  have hk := closed_of_follows h
  unfold Phrase.isItem at hp
  split at hp
  · exact .named (fails_after_gap (.bind (fails_choice hk) _))
  · exact .named (fails_after_gap (.bind (fails_key hk) _))
  · cases hp

/-- A phrase that goes on with another is not found in front of a looser operator. -/
theorem fails_phrase {p : Phrase} (hp : 0 < p.rank) (h : Follows (p.rank - 1) k) (r : Rules) :
    FailsAt (p.matcher r) k := by
  have looser : ∀ c ∈ (k.dropWhile isSpace).head?, rank c < p.rank := fun c hc =>
    Nat.lt_of_le_pred hp (h c hc)
  -- an operator that is one character cannot begin what follows, by its rank
  have symbol {s : String} {x : Char} (hs : s.toList = [x]) (hx : p.rank = rank x) :
      FailsAt (Rule.symbol s) (k.dropWhile isSpace) := by
    refine fails_symbol hs fun c hc e => ?_
    have := looser c hc
    rw [e, ← hx] at this
    exact Nat.lt_irrefl _ this
  cases p with
  | branches => exact .named (fails_after_gap (.bind (symbol (x := '?') rfl (by decide)) _))
  | operand c =>
      refine .named (fails_after_gap (.bind (fails_symbolOrWord ?_) _))
      refine c.exact_starts.2.eq_none c.exact_starts.1 fun a ha => ?_
      refine Bool.eq_false_iff.mpr fun hs => ?_
      have := looser a ha
      rw [(Connective.rank_of_starts hs).1] at this
      exact Nat.lt_irrefl _ this
  | step i =>
      refine .named (fails_after_gap (.bind (fails_operator fun a ha => ?_) _))
      refine Bool.eq_false_iff.mpr fun hs => ?_
      have := looser a ha
      rw [(Tier.rank_of_starts hs).1] at this
      exact Nat.lt_irrefl _ this
  | nextTrailer =>
      refine .named (fails_after_gap (.named (.firstOf fun m hm => ?_)))
      simp only [List.mem_cons, List.not_mem_nil, or_false] at hm
      rcases hm with rfl | rfl | rfl
      · exact .named (.bind (symbol (x := '(') rfl (by decide)) _)
      · exact .named (.bind (symbol (x := '[') rfl (by decide)) _)
      · exact .named (.bind (symbol (x := '.') rfl (by decide)) _)
  | nextItem p =>
      refine .named (.bind (fails_symbol (x := ',') rfl fun c hc e => ?_) _)
      subst e
      -- an item has no blanks in front, so that the comma would be the first character
      rcases h.head _ hc with hs | hr
      · cases hs
      · exact absurd hr (show ¬ 1 ≤ 0 by decide)
  | _ => cases hp

/-! ### Keys -/

/-- A text is the first kind of key that is tried. -/
theorem spans_key_text (h : greedy .text t k) : Spans Rule.key t (.text (Token.unquote t)) k :=
  .named (.firstOf_head (spans_text h))

/-- A number is a key: it is no text. -/
theorem spans_key_number (h : greedy .number t k) :
    Spans Rule.key t (Token.numberLiteral t) k :=
  .named (.firstOf_tail
    (fails_text (greedy_head (by nofun) h fun _ => Token.not_contains (by decide)))
    (.firstOf_head (spans_number h)))

/-- A name is a key: it is neither a text nor a number. -/
theorem spans_key_name (h : greedy .name t k) : Spans Rule.key t (.text (String.ofList t)) k :=
  .named (.firstOf_tail
    (fails_text (greedy_head (by nofun) h fun _ => Token.not_contains (by decide)))
    (.firstOf_tail
      (fails_number (greedy_head (by nofun) h fun _ => Token.startsNumber_of_startsName))
      (.firstOf_head ((spans_name h).map _))))

/-! ### Rules -/

section Rules

variable {operand : Matcher Expr} {o : Operator} {c : Connective}

/-- A matcher and then another repeated, found together. -/
theorem spans_with_many {β γ : Type} {m : Matcher α} {n : Matcher β} {a : α} {bs : List β}
    (h : Spans m u a (v ++ k)) (h' : ∀ limit, v.length ≤ limit → Spans (upTo n limit) v bs k)
    (g : α → List β → γ) :
    Spans (named do
      let a ← m
      let bs ← many n
      return g a bs) (u ++ v) (g a bs) k :=
  .named (.bind h (.map (.many h') _))

/-- An expression is taken with the white space around it. -/
theorem spans_expr (hw : greedy .space w (u ++ (v ++ k))) (h : Spans operand u e (v ++ k))
    (hv : greedy .space v k) : Spans (Rule.expr operand) (w ++ (u ++ v)) e k := by
  refine .named (.bind (spans_gap ?_) (.bind h (.map (spans_gap hv) _)))
  rwa [List.append_assoc]

/-- An operator is taken with the operand behind it. -/
theorem spans_step {i : Tier} (hw : greedy .space w (t ++ (v ++ (u ++ k))))
    (ht : greedy (.sign i o) t (v ++ (u ++ k))) (hv : greedy .space v (u ++ k))
    (h : Spans operand u e k) :
    Spans (Rule.step operand (Rule.operator i.signs)) (w ++ (t ++ (v ++ u))) (o, e) k := by
  refine .named (.bind (spans_gap ?_) (.bind (spans_operator ?_) (.bind (spans_gap hv) (.map h _))))
  · simpa using hw
  · simpa using ht

/-- So is a connective. -/
theorem spans_nextOperand (hw : greedy .space w (t ++ (v ++ (u ++ k))))
    (ht : greedy (.connective c) t (v ++ (u ++ k))) (hv : greedy .space v (u ++ k))
    (h : Spans operand u e k) :
    Spans (Rule.nextOperand (Rule.symbolOrWord c.pattern) operand) (w ++ (t ++ (v ++ u))) e k := by
  refine .named (.bind (spans_gap ?_) (.bind (spans_symbolOrWord ?_) (.bind (spans_gap hv) h)))
  · simpa using hw
  · simpa [greedy] using ht

/-- Both branches are taken, with the marks in front of them. -/
theorem spans_branches {w₁ w₂ w₃ w₄ : List Char} {yes no : Expr}
    (h₁ : greedy .space w₁ ('?' :: (w₂ ++ (u ++ (w₃ ++ ':' :: (w₄ ++ (v ++ k)))))))
    (h₂ : greedy .space w₂ (u ++ (w₃ ++ ':' :: (w₄ ++ (v ++ k)))))
    (hyes : Spans operand u yes (w₃ ++ ':' :: (w₄ ++ (v ++ k))))
    (h₃ : greedy .space w₃ (':' :: (w₄ ++ (v ++ k)))) (h₄ : greedy .space w₄ (v ++ k))
    (hno : Spans operand v no k) :
    Spans (Rule.branches operand) (w₁ ++ '?' :: (w₂ ++ (u ++ (w₃ ++ ':' :: (w₄ ++ v))))) (yes, no)
      k := by
  refine .named (.bind (spans_gap ?_) (.bind (u := ['?']) (spans_symbol rfl _)
    (.bind (spans_gap ?_) (.bind ?_ (.bind (spans_gap ?_) (.bind (u := [':']) (spans_symbol rfl _)
    (.bind (spans_gap h₄) (.map hno _))))))))
  · simpa using h₁
  · simpa using h₂
  · simpa using hyes
  · simpa using h₃

/-- A test is taken with the branches that stand behind it, if any do. -/
theorem spans_choice {negation choice : Matcher Expr} {b : Option (Expr × Expr)}
    (h : Spans (Rule.disjunction negation) u e (v ++ k)) :
    Spans (optional (Rule.branches choice)) v b k → Spans (Rule.choice negation choice) (u ++ v)
      (match b with
        | none => e
        | some (yes, no) => .choice e yes no) k := by
  intro hb
  refine .named (.bind h ?_)
  rw [← List.append_nil v]
  cases b with
  | none => exact .bind (by simpa using hb) (.pure _ k)
  | some b => exact .bind (by simpa using hb) (.pure _ k)

/-- A denial is taken with what it denies. -/
theorem spans_denial {unary negation : Matcher Expr} (ht : greedy .denial t (w ++ (u ++ k)))
    (hw : greedy .space w (u ++ k)) (h : Spans negation u e k) :
    Spans (Rule.negation unary negation) (t ++ (w ++ u)) (.not e) k := by
  refine .named (.firstOf_head (.named (.bind (spans_symbolOrWord ?_)
    (.bind (spans_gap hw) (.map h _)))))
  simpa [greedy] using ht

/-- A comparison where no denial starts. -/
theorem spans_negation {unary negation : Matcher Expr} (hden : Token.denial (u ++ k) = none)
    (h : Spans (Rule.comparison unary) u e k) : Spans (Rule.negation unary negation) u e k :=
  .named (.firstOf_tail (.named (.bind (fails_symbolOrWord hden) _)) (.firstOf_head h))

/-- A minus sign is taken with what is behind it. -/
theorem spans_minus {expr unary : Matcher Expr} (hw : greedy .space w (u ++ k))
    (h : Spans unary u e k) : Spans (Rule.unary expr unary) ('-' :: (w ++ u)) (.neg e) k :=
  .named (.firstOf_head (.named (.bind (u := ['-']) (spans_symbol rfl _)
    (.bind (spans_gap hw) (.map h _)))))

/-- A factor where no minus sign starts. -/
theorem spans_single {expr unary : Matcher Expr} (hk : ∀ c ∈ (u ++ k).head?, c ≠ '-')
    (h : Spans (Rule.factor expr) u e k) : Spans (Rule.unary expr unary) u e k :=
  .named (.firstOf_tail (.named (.bind (fails_symbol rfl hk) _)) (.firstOf_head h))

theorem spans_call {expr : Matcher Expr} {a : Tail} (h : Spans (Rule.call expr) u a k) :
    Spans (Rule.trailer expr) u a k :=
  .named (.firstOf_head h)

/-- An index is tried behind calls. -/
theorem spans_trailer_index {expr : Matcher Expr} {a : Tail}
    (h : Spans (Rule.index expr) ('[' :: u) a k) : Spans (Rule.trailer expr) ('[' :: u) a k :=
  .named (.firstOf_tail (.named (.bind (fails_symbol (x := '(') rfl (by simp)) _))
    (.firstOf_head h))

/-- A member is tried behind calls and indices. -/
theorem spans_trailer_member {expr : Matcher Expr} {a : Tail}
    (h : Spans Rule.member ('.' :: u) a k) : Spans (Rule.trailer expr) ('.' :: u) a k :=
  .named (.firstOf_tail (.named (.bind (fails_symbol (x := '(') rfl (by simp)) _))
    (.firstOf_tail (.named (.bind (fails_symbol (x := '[') rfl (by simp)) _)) (.firstOf_head h)))

theorem spans_nextTrailer {expr : Matcher Expr} {a : Tail} (hw : greedy .space w (u ++ k))
    (h : Spans (Rule.trailer expr) u a k) : Spans (Rule.nextTrailer expr) (w ++ u) a k :=
  .named (.bind (spans_gap hw) h)

/-- An item is taken with the comma in front of it. -/
theorem spans_nextItem {m : Matcher α} {a : α} (h : Spans m u a k) :
    Spans (Rule.nextItem m) (',' :: u) a k :=
  .named (.bind (u := [',']) (spans_symbol rfl _) h)

/-- A pair is taken with the white space around its key. -/
theorem spans_pair {expr : Matcher Expr} {l : Literal}
    (hw : greedy .space w (u ++ (v ++ ':' :: (t ++ k))))
    (hkey : Spans Rule.key u l (v ++ ':' :: (t ++ k))) (hv : greedy .space v (':' :: (t ++ k)))
    (h : Spans expr t e k) : Spans (Rule.pair expr) (w ++ (u ++ (v ++ ':' :: t))) (l, e) k := by
  refine .named (.bind (spans_gap ?_) (.bind ?_ (.bind (spans_gap hv) (.bind (u := [':'])
    (spans_symbol rfl _) (.map h _)))))
  · simpa using hw
  · simpa using hkey

end Rules

/-! ### Derivations are found -/

/-- The matchers for a depth of nesting find the derivation in front of `k`. -/
def Completes (depth : Nat) : {f : Form} → Tree f → List Char → Prop
  | .one p, d, k     => Spans (p.matcher (rules depth)) d.spelled d.image k
  | .perhaps p, d, k => Spans (optional (p.matcher (rules depth))) d.spelled d.image k
  | .many p, d, k    => ∀ limit, d.spelled.length ≤ limit →
      Spans (upTo (p.matcher (rules depth)) limit) d.spelled d.image k

/-- The phrases that may be absent or repeated are told by what they start with. -/
def Form.isTold : Form → Bool
  | one _              => true
  | many p             => p.continues
  | perhaps .branches  => true
  | perhaps (.series p) => p.isItem
  | perhaps _          => false

/-- The text that is taken may be told in another way. -/
theorem Completes.of_eq {p : Phrase} {d : Tree (.one p)} {depth : Nat} (hs : d.spelled = u)
    (h : Spans (p.matcher (rules depth)) u d.image k) : Completes depth d k := by
  subst hs
  exact h

/-- The derivation is found in front of anything that no operator could make part of it, at any depth
of nesting that its length allows, if its lexemes are as the matchers take them. -/
def Tree.IsFound {f : Form} (d : Tree f) : Prop :=
  ∀ ⦃depth : Nat⦄ ⦃k : List Char⦄, d.spelled.length ≤ depth → d.Reads greedy k →
    Follows f.bound k → Completes depth d k

/-- A part that is shorter than what a depth allows may stand a level deeper. -/
theorem exists_deeper {m depth : Nat} (h : m + 1 ≤ depth) : ∃ l, depth = l + 1 ∧ m ≤ l :=
  ⟨depth - 1, by omega, by omega⟩

namespace Tree.IsFound

variable {w' w₁ w₂ w₃ w₄ n : List Char} {p : Phrase}

/-! #### Expressions, choices and connectives -/

/-- White space ends where the choice begins, and goes on as far as it can behind it. -/
theorem expr {e : Tree (.one (.level .choice))} (he : e.IsFound) :
    (Tree.expr w e w').IsFound := by
  intro depth k hd hr hk
  obtain ⟨hw, hr, hw'⟩ := Tree.reads_expr.mp hr
  have hlen : e.spelled.length ≤ depth := by
    simp at hd
    omega
  have hk' := (follows_append (greedy_space.mp hw').1).mpr hk
  exact .of_eq (by simp) (spans_expr hw (he hlen hr hk') hw')

/-- What follows the branches, or a test without any, cannot go on with it. -/
theorem choice {test : Tree (.one (.level (.logic .disj)))} {b : Tree (.perhaps .branches)}
    (ht : test.IsFound) (hb : b.IsFound) : (Tree.choice test b).IsFound := by
  intro depth k hd hr hk
  obtain ⟨hr, hrb⟩ := Tree.reads_choice.mp hr
  have hlen : test.spelled.length ≤ depth ∧ b.spelled.length ≤ depth := by
    simp at hd
    omega
  exact .of_eq (by simp)
    (spans_choice (ht hlen.1 hr (follows_branches b hrb hk)) (hb hlen.2 hrb hk))

/-- The rules below a mark are a level deeper, and the mark pays for the level. -/
theorem branches {yes no : Tree (.one (.level .choice))} (hy : yes.IsFound) (hn : no.IsFound) :
    (Tree.branches w₁ w₂ yes w₃ w₄ no).IsFound := by
  intro depth k hd hr hk
  obtain ⟨h₁, -, h₂, hry, h₃, -, h₄, hrn⟩ := Tree.reads_branches.mp hr
  obtain ⟨depth, rfl, hlen⟩ : ∃ l, depth = l + 1 ∧ yes.spelled.length + no.spelled.length ≤ l :=
    exists_deeper (by simp at hd; omega)
  exact .of_eq (by simp)
    (spans_branches h₁ h₂ (hy (by omega) hry (follows_symbol h₃ rfl (by decide))) h₃ h₄
      (hn (by omega) hrn hk))

/-- Operands are found one after the other. -/
theorem logic {c : Connective} {e : Tree (.one (.level c.operand))} {es : Tree (.many (.operand c))}
    (he : e.IsFound) (hs : es.IsFound) : (Tree.logic c e es).IsFound := by
  intro depth k hd hr hk
  obtain ⟨hr, hrs⟩ := Tree.reads_logic.mp hr
  have hlen : e.spelled.length ≤ depth ∧ es.spelled.length ≤ depth := by
    simp at hd
    omega
  have hk' := follows_operands es hrs hk
  cases c with
  | disj => exact .of_eq (by simp) (spans_with_many (he hlen.1 hr hk') (hs hlen.2 hrs hk) _)
  | conj => exact .of_eq (by simp) (spans_with_many (he hlen.1 hr hk') (hs hlen.2 hrs hk) _)

/-- The connective is taken whole, so that the operand begins behind it. -/
theorem operand {c : Connective} {e : Tree (.one (.level c.operand))} (he : e.IsFound) :
    (Tree.operand c w t w' e).IsFound := by
  intro depth k hd hr hk
  obtain ⟨hw, ht, hw', hr⟩ := Tree.reads_operand.mp hr
  have hlen : e.spelled.length ≤ depth := by
    simp at hd
    omega
  exact .of_eq (by simp) (spans_nextOperand hw ht hw' (he hlen hr hk))

/-- A denial is a level deeper than what it stands in. -/
theorem denial {e : Tree (.one (.level .negation))} (he : e.IsFound) :
    (Tree.denial t w e).IsFound := by
  intro depth k hd hr hk
  obtain ⟨ht, hw, hre⟩ := Tree.reads_denial.mp hr
  -- a denial is not empty
  obtain ⟨c, t, rfl, -⟩ := greedy_starts (by simp) ht
  obtain ⟨depth, rfl, hlen⟩ : ∃ l, depth = l + 1 ∧ e.spelled.length ≤ l :=
    exists_deeper (by simp at hd; omega)
  exact .of_eq (by simp) (spans_denial ht hw (he hlen hre hk))

/-- Nothing that begins a denial can be taken off a comparison. -/
theorem comparison {e : Tree (.one (.level (.chain .comparison)))} (he : e.IsFound) :
    (Tree.comparison e).IsFound :=
  fun _ _ hd hr hk => spans_negation (denial_eq_none e.first_of_chain hr) (he hd hr hk)

/-! #### Operators -/

/-- The operands of operators are found one after the other. -/
theorem chain {i : Tier} {e : Tree (.one (.level i.operand))} {ss : Tree (.many (.step i))}
    (he : e.IsFound) (hs : ss.IsFound) : (Tree.chain i e ss).IsFound := by
  intro depth k hd hr hk
  obtain ⟨hr, hrs⟩ := Tree.reads_chain.mp hr
  have hlen : e.spelled.length ≤ depth ∧ ss.spelled.length ≤ depth := by
    simp at hd
    omega
  have hk' := follows_steps ss hrs hk
  cases i with
  | comparison => exact .of_eq (by simp) (spans_with_many (he hlen.1 hr hk') (hs hlen.2 hrs hk) _)
  | sum => exact .of_eq (by simp) (spans_with_many (he hlen.1 hr hk') (hs hlen.2 hrs hk) _)
  | product => exact .of_eq (by simp) (spans_with_many (he hlen.1 hr hk') (hs hlen.2 hrs hk) _)

/-- The sign that is written is the first that fits. -/
theorem step {i : Tier} {o : Operator} {e : Tree (.one (.level i.operand))} (he : e.IsFound) :
    (Tree.step i w o t w' e).IsFound := by
  intro depth k hd hr hk
  obtain ⟨hw, ht, hw', hr⟩ := Tree.reads_step.mp hr
  have hlen : e.spelled.length ≤ depth := by
    simp at hd
    omega
  exact .of_eq (by simp) (spans_step hw ht hw' (he hlen hr hk))

/-- What stands behind a minus sign is a level deeper. -/
theorem minus {e : Tree (.one (.level .unary))} (he : e.IsFound) : (Tree.minus w e).IsFound := by
  intro depth k hd hr hk
  obtain ⟨-, hw, hr⟩ := Tree.reads_minus.mp hr
  obtain ⟨depth, rfl, hlen⟩ : ∃ l, depth = l + 1 ∧ e.spelled.length ≤ l :=
    exists_deeper (by simp at hd; omega)
  exact .of_eq (by simp) (spans_minus hw (he hlen hr hk))

/-- No minus sign can be taken off a factor. -/
theorem single {e : Tree (.one (.level .factor))} (he : e.IsFound) : (Tree.single e).IsFound :=
  fun _ _ hd hr hk => spans_single (ne_minus e.first_of_factor hr) (he hd hr hk)

/-! #### Factors -/

/-- Calls, indices and members are found one after the other. -/
theorem factor {a : Tree (.one (.level .atom))} {ts : Tree (.many .nextTrailer)} (ha : a.IsFound)
    (hs : ts.IsFound) : (Tree.factor a ts).IsFound := by
  intro depth k hd hr hk
  obtain ⟨hr, hrs⟩ := Tree.reads_factor.mp hr
  have hlen : a.spelled.length ≤ depth ∧ ts.spelled.length ≤ depth := by
    simp at hd
    omega
  exact .of_eq (by simp)
    (spans_with_many (ha hlen.1 hr (follows_trailers ts hrs hk)) (hs hlen.2 hrs hk) _)

theorem nextTrailer {a : Tree (.one .trailer)} (ha : a.IsFound) :
    (Tree.nextTrailer w a).IsFound := by
  intro depth k hd hr hk
  obtain ⟨hw, hr⟩ := Tree.reads_nextTrailer.mp hr
  have hlen : a.spelled.length ≤ depth := by
    simp at hd
    omega
  exact .of_eq (by simp) (spans_nextTrailer hw (ha hlen hr hk))

/-- The arguments of a call are a level deeper. -/
theorem call {es : Tree (.perhaps (.series (.level .expr)))} (hs : es.IsFound) :
    (Tree.call w es w').IsFound := by
  intro depth k hd hr hk
  obtain ⟨-, hw, hr, hw', -⟩ := Tree.reads_call.mp hr
  obtain ⟨depth, rfl, hlen⟩ : ∃ l, depth = l + 1 ∧ es.spelled.length ≤ l :=
    exists_deeper (by simp at hd; omega)
  have hk' : Follows 0 (w' ++ ')' :: k) := follows_symbol hw' rfl (by decide)
  exact .of_eq (by simp) (spans_call
    (.named (spans_bracketed (x := '(') (y := ')') rfl rfl Tail.call hw (hs hlen hr hk') hw')))

/-- So is an index. -/
theorem index {e : Tree (.one (.level .expr))} (he : e.IsFound) : (Tree.index e).IsFound := by
  intro depth k hd hr hk
  obtain ⟨-, hr, -⟩ := Tree.reads_index.mp hr
  obtain ⟨depth, rfl, hlen⟩ : ∃ l, depth = l + 1 ∧ e.spelled.length ≤ l :=
    exists_deeper (by simp at hd; omega)
  have hk' : Follows 1 (']' :: k) := (follows_cons rfl).mpr (by decide)
  exact .of_eq (by simp) (spans_trailer_index (spans_index (he hlen hr hk')))

/-- A name that is taken whole is a member. -/
theorem member : (Tree.member w n).IsFound := by
  intro depth k _ hr _
  obtain ⟨-, hw, hn⟩ := Tree.reads_member.mp hr
  exact .of_eq (by simp) (spans_trailer_member (spans_member hw hn))

/-! #### Atoms -/

/-- A number is an atom. -/
theorem number : (Tree.number t).IsFound := fun _ _ _ hr _ =>
  .of_eq (by simp) (spans_atom_literal (.named (.firstOf_head (spans_number hr.1))))

theorem text : (Tree.text t).IsFound := fun _ _ _ hr _ =>
  .of_eq (by simp) (spans_atom_literal (spans_literal_text hr.1))

theorem truth : (Tree.truth t).IsFound := fun _ _ _ hr _ =>
  .of_eq (by simp) (spans_atom_literal (spans_literal_truth hr.1))

theorem null : (Tree.null t).IsFound := fun _ _ _ hr _ =>
  .of_eq (by simp) (spans_atom_literal (spans_literal_null hr.1))

theorem var : (Tree.var n).IsFound := fun _ _ _ hr _ =>
  .of_eq (by simp) (spans_atom_var hr.1)

/-- What stands in parentheses is a level deeper. -/
theorem inner {e : Tree (.one (.level .expr))} (he : e.IsFound) : (Tree.inner e).IsFound := by
  intro depth k hd hr hk
  obtain ⟨-, hr, -⟩ := Tree.reads_inner.mp hr
  obtain ⟨depth, rfl, hlen⟩ : ∃ l, depth = l + 1 ∧ e.spelled.length ≤ l :=
    exists_deeper (by simp at hd; omega)
  have hk' : Follows 1 (')' :: k) := (follows_cons rfl).mpr (by decide)
  exact .of_eq (by simp) (spans_atom_inner (spans_inner (he hlen hr hk')))

/-- So are the items of a list. -/
theorem list {es : Tree (.perhaps (.series (.level .expr)))} (hs : es.IsFound) :
    (Tree.list w es w').IsFound := by
  intro depth k hd hr hk
  obtain ⟨-, hw, hr, hw', -⟩ := Tree.reads_list.mp hr
  obtain ⟨depth, rfl, hlen⟩ : ∃ l, depth = l + 1 ∧ es.spelled.length ≤ l :=
    exists_deeper (by simp at hd; omega)
  have hk' : Follows 0 (w' ++ ']' :: k) := follows_symbol hw' rfl (by decide)
  exact .of_eq (by simp) (spans_atom_list
    (.named (spans_bracketed rfl rfl Expr.list hw (hs hlen hr hk') hw')))

/-- The pairs of a dictionary are at the level of the dictionary: each pays for its value. -/
theorem dict {ps : Tree (.perhaps (.series .pair))} (hs : ps.IsFound) :
    (Tree.dict w ps w').IsFound := by
  intro depth k hd hr hk
  obtain ⟨-, hw, hr, hw', -⟩ := Tree.reads_dict.mp hr
  have hlen : ps.spelled.length ≤ depth := by
    simp at hd
    omega
  have hk' : Follows 0 (w' ++ '\x7d' :: k) := follows_symbol hw' rfl (by decide)
  exact .of_eq (by simp) (spans_atom_dict
    (.named (spans_bracketed rfl rfl Expr.dict hw (hs hlen hr hk') hw')))

/-! #### Items -/

/-- The first item ends where the others begin. -/
theorem series {hp : p.isItem = true} {a : Tree (.one p)} {as : Tree (.many (.nextItem p))}
    (ha : a.IsFound) (hs : as.IsFound) : (Tree.series p hp a as).IsFound := by
  intro depth k hd hr hk
  obtain ⟨hr, hrs⟩ := Tree.reads_series.mp hr
  have hlen : a.spelled.length ≤ depth ∧ as.spelled.length ≤ depth := by
    simp at hd
    omega
  exact .of_eq (by simp)
    (spans_with_many (ha hlen.1 hr (follows_items hp as hrs hk)) (hs hlen.2 hrs hk) _)

theorem nextItem {a : Tree (.one p)} (ha : a.IsFound) : (Tree.nextItem p a).IsFound := by
  intro depth k hd hr hk
  obtain ⟨-, hr⟩ := Tree.reads_nextItem.mp hr
  have hlen : a.spelled.length ≤ depth := by
    simp at hd
    omega
  exact .of_eq (by simp) (spans_nextItem (ha hlen hr hk))

/-- The key is matched at the depth of the pair, and only the value a level deeper. -/
theorem pair {dk : Tree (.one .key)} {e : Tree (.one (.level .expr))} (hkey : dk.IsFound)
    (he : e.IsFound) : (Tree.pair w dk w' e).IsFound := by
  intro depth k hd hr hk
  obtain ⟨hw, hrk, hw', -, hr⟩ := Tree.reads_pair.mp hr
  obtain ⟨depth, rfl, hlen⟩ : ∃ l, depth = l + 1 ∧ dk.spelled.length + e.spelled.length ≤ l :=
    exists_deeper (by simp at hd; omega)
  have hkeylen : dk.spelled.length ≤ depth + 1 := by omega
  exact .of_eq (by simp)
    (spans_pair hw (hkey hkeylen hrk (follows_symbol hw' rfl (by decide))) hw'
      (he (by omega) hr hk))

theorem textKey : (Tree.textKey t).IsFound := fun _ _ _ hr _ =>
  .of_eq (by simp) (spans_key_text hr.1)

theorem numberKey : (Tree.numberKey t).IsFound := fun _ _ _ hr _ =>
  .of_eq (by simp) (spans_key_number hr.1)

theorem nameKey : (Tree.nameKey n).IsFound := fun _ _ _ hr _ =>
  .of_eq (by simp) (spans_key_name hr.1)

/-! #### Parts that may be absent or repeated -/

/-- Nothing is taken of an absent part, since what follows begins none. -/
theorem absent (hf : (Form.perhaps p).isTold = true) : (Tree.absent p).IsFound := by
  intro depth k _ _ hk
  cases p with
  | branches => exact .none (.inr (fails_phrase (by decide) hk _))
  | series p => exact .none (.inr (.named (.bind (fails_item hf hk _) _)))
  | _ => cases hf

/-- A part that is there is not empty, so that it is taken. -/
theorem present (hf : (Form.perhaps p).isTold = true) {a : Tree (.one p)} (ha : a.IsFound) :
    (Tree.present p a).IsFound := by
  intro depth k hd hr hk
  have hk' : Follows p.bound k := by
    cases p with
    | branches => exact hk
    | series p => exact hk
    | _ => cases hf
  exact (ha hd hr hk').some (by simp [a.spelled_ne_nil hr])

/-- Nothing is taken of an empty repetition, since what follows begins no item. -/
theorem nil (hf : (Form.many p).isTold = true) : (Tree.nil p).IsFound := by
  intro depth k _ _ hk limit _
  exact .upTo_nil (.inr (fails_phrase (Phrase.rank_of_continues hf).1 hk _)) limit

/-- What ends a repetition ends its items too, and so does the next item. -/
theorem cons (hf : (Form.many p).isTold = true) {a : Tree (.one p)} {as : Tree (.many p)}
    (ha : a.IsFound) (hs : as.IsFound) : (Tree.cons p a as).IsFound := by
  intro depth k hd hr hk
  obtain ⟨hpos, hle⟩ := Phrase.rank_of_continues hf
  obtain ⟨hr, hrs⟩ := Tree.reads_cons.mp hr
  rw [Tree.spelled_cons, List.length_append] at hd
  have hk' : Follows p.bound (as.spelled ++ k) :=
    follows_many as hpos hrs (hk.mono (Nat.le_trans (Nat.sub_le _ _) hle)) hle
  intro limit hlimit
  rw [Tree.spelled_cons] at hlimit ⊢
  exact .upTo_cons (a.spelled_ne_nil hr) hlimit
    (ha (Nat.le_trans (Nat.le_add_right _ _) hd) hr hk')
    (hs (Nat.le_trans (Nat.le_add_left _ _) hd) hrs hk)

end Tree.IsFound

/-- **Completeness of the rules.**  A derivation whose lexemes are as the matchers take them is
found in front of anything that no operator could make part of it, at any depth of nesting that its
length allows. -/
theorem Tree.isFound {f : Form} (d : Tree f) (hf : f.isTold = true) : d.IsFound := by
  induction d with
  | expr w e w' ih => exact .expr (ih rfl)
  | choice test b iht ihb => exact .choice (iht rfl) (ihb rfl)
  | branches w₁ w₂ yes w₃ w₄ no ihy ihn => exact .branches (ihy rfl) (ihn rfl)
  | logic c e es ihe ihs => exact .logic (ihe rfl) (ihs rfl)
  | operand c w t w' e ih => exact .operand (ih rfl)
  | denial t w e ih => exact .denial (ih rfl)
  | comparison e ih => exact .comparison (ih rfl)
  | chain i e ss ihe ihs => exact .chain (ihe rfl) (ihs rfl)
  | step i w o t w' e ih => exact .step (ih rfl)
  | minus w e ih => exact .minus (ih rfl)
  | single e ih => exact .single (ih rfl)
  | factor a ts iha iht => exact .factor (iha rfl) (iht rfl)
  | nextTrailer w a ih => exact .nextTrailer (ih rfl)
  | call w es w' ih => exact .call (ih rfl)
  | index e ih => exact .index (ih rfl)
  | member w n => exact .member
  | number t => exact .number
  | text t => exact .text
  | truth t => exact .truth
  | null t => exact .null
  | var n => exact .var
  | inner e ih => exact .inner (ih rfl)
  | list w es w' ih => exact .list (ih rfl)
  | dict w ps w' ih => exact .dict (ih rfl)
  | series p hp a as iha ihs => exact .series (iha rfl) (ihs hp)
  | nextItem p a ih => exact .nextItem (ih rfl)
  | pair w dk w' e ihk ihe => exact .pair (ihk rfl) (ihe rfl)
  | textKey t => exact .textKey
  | numberKey t => exact .numberKey
  | nameKey n => exact .nameKey
  | absent p => exact .absent hf
  | present p a ih => exact .present hf (ih rfl)
  | nil p => exact .nil hf
  | cons p a as iha ihs => exact .cons hf (iha rfl) (ihs hf)

end Trellis.Expr
