import Trellis.Proofs.Syntax.Lexicon

/-!
# Proofs — Syntax — Offsets

The offsets that matchers reply with.  A cursor reaches another one by taking characters
(`Cursor.Reaches`); the end of the text stays where it is then.  A matcher is `Within` the text if
it ends at a cursor that it reaches, and if the furthest failure that it replies with lies before
the end of the text or at it.  All ways of putting matchers together keep this, lookahead and
repetition among them, and so all rules have it (`within_rules`).
-/

namespace Trellis.Expr

/-- The offset of the end of the text. -/
def Cursor.limit (c : Cursor) : Nat := c.offset + c.rest.length

/-- The second place comes some characters after the first. -/
def Cursor.Reaches (c c' : Cursor) : Prop :=
  ∃ t, c.rest = t ++ c'.rest ∧ c'.offset = c.offset + t.length

namespace Cursor

variable {c c' c'' : Cursor}

theorem Reaches.refl (c : Cursor) : c.Reaches c := ⟨[], rfl, rfl⟩

/-- A cursor that is reached goes on to what it reaches. -/
theorem Reaches.trans (h : c.Reaches c') (h' : c'.Reaches c'') : c.Reaches c'' := by
  obtain ⟨t, ht, ho⟩ := h
  obtain ⟨u, hu, ho'⟩ := h'
  refine ⟨t ++ u, by rw [ht, hu, List.append_assoc], ?_⟩
  rw [ho', ho, List.length_append, Nat.add_assoc]

/-- The end of the text stays where it is. -/
theorem Reaches.limit_eq (h : c.Reaches c') : c'.limit = c.limit := by
  obtain ⟨t, ht, ho⟩ := h
  rw [limit, limit, ho, ht, List.length_append, Nat.add_assoc]

end Cursor

namespace Matcher

variable {α β : Type} {m : Matcher α} {f : α → Matcher β}

/-- The matcher ends at a place that it reaches, and no failure is beyond the end of the text. -/
structure Within (m : Matcher α) : Prop where
  furthest : ∀ c, (m c).furthest ≤ c.limit
  reaches : ∀ {c a c'}, Finds m c a c' → c.Reaches c'

theorem within_pure (a : α) : Within (pure a : Matcher α) where
  furthest c := Nat.zero_le _
  reaches h := by
    obtain ⟨-, rfl⟩ := finds_pure.mp h
    exact .refl _

theorem within_fail : Within (fail : Matcher α) where
  furthest c := Nat.zero_le _
  reaches h := by cases h

/-- A token stops within the text, and a failure is where it began. -/
theorem within_token {p : Pattern} (hp : p.Exact) : Within (token p) where
  furthest c := by
    unfold token
    split <;> exact Nat.zero_le _
  reaches h := by
    obtain ⟨r, hr, rfl⟩ := finds_token.mp h
    exact ⟨_, hp hr, rfl⟩

/-- One matcher after another.  The second one starts where the first one ends, in the same text. -/
theorem Within.bind (hm : Within m) (hf : ∀ a, Within (f a)) : Within (m >>= f) where
  furthest c := by
    show (andThen m f c).furthest ≤ _
    unfold andThen
    simp only
    split
    · exact hm.furthest c
    · next a c' h =>
      have := (hf a).furthest c'
      rw [(hm.reaches h).limit_eq] at this
      exact Nat.max_le.mpr ⟨hm.furthest c, this⟩
  reaches h := by
    obtain ⟨a, c₁, h₁, h₂⟩ := finds_bind.mp h
    exact (hm.reaches h₁).trans ((hf a).reaches h₂)

/-- A name changes nothing but what a failure is called. -/
theorem Within.named (hm : Within m) : Within (named m) where
  furthest c := by
    unfold Matcher.named
    simp only
    split
    · exact hm.furthest c
    · exact Nat.max_le.mpr ⟨hm.furthest c, Nat.le_add_right _ _⟩
  reaches h := hm.reaches (finds_named.mp h)

/-- The first of matchers keeps to the text if all do. -/
theorem Within.firstOf {ms : List (Matcher α)} (h : ∀ m ∈ ms, Within m) : Within (firstOf ms) where
  furthest c := by
    induction ms with
    | nil => exact Nat.zero_le _
    | cons m ms ih =>
        obtain ⟨hm, hms⟩ := List.forall_mem_cons.mp h
        unfold Matcher.firstOf orElse
        simp only
        split
        · exact hm.furthest c
        · exact Nat.max_le.mpr ⟨hm.furthest c, ih hms⟩
  reaches hf := by
    obtain ⟨m, hmem, hm⟩ := finds_firstOf hf
    exact (h m hmem).reaches hm

/-- So does a matcher that may find nothing. -/
theorem Within.optional (hm : Within m) : Within (optional m) where
  furthest c := by
    unfold Matcher.optional
    simp only
    split
    · exact Nat.zero_le _
    · split <;> exact hm.furthest c
  reaches h := by
    rcases finds_optional h with ⟨-, rfl⟩ | ⟨a, -, h⟩
    · exact .refl _
    · exact hm.reaches h

/-- So does a repetition, whatever its limit is. -/
theorem Within.upTo (hm : Within m) (limit : Nat) : Within (upTo m limit) := by
  induction limit with
  | zero => exact within_pure []
  | succ limit ih =>
      refine hm.optional.bind fun o => ?_
      cases o with
      | none => exact within_pure []
      | some a => exact ih.bind fun as => within_pure (a :: as)

theorem Within.many (hm : Within m) : Within (many m) where
  furthest c := (hm.upTo _).furthest c
  reaches h := (hm.upTo _).reaches h

/-- Lookahead takes nothing, but what it tries counts. -/
theorem Within.absent (hm : Within m) : Within (absent m) where
  furthest c := by
    unfold Matcher.absent
    simp only
    split <;> exact hm.furthest c
  reaches h := by
    obtain ⟨-, rfl⟩ := finds_absent.mp h
    exact .refl _

/-- A matcher and a function of what it finds. -/
theorem Within.map (hm : Within m) (g : α → β) : Within (m >>= fun a => pure (g a)) :=
  hm.bind fun a => within_pure (g a)

end Matcher

namespace Rule

open Matcher

variable {α : Type} {m : Matcher α} {expr choice negation unary operand : Matcher Expr}
  {connective : Matcher Unit} {op : Matcher Operator}

/-! ### Tokens -/

theorem within_gap : Within gap := (within_token (Token.exact_run _)).map _

theorem within_symbol (t : String) : Within (symbol t) := (within_token (Token.exact_exactly _)).map _

/-- Signs are tokens, so that operators keep to the text. -/
theorem within_operator (i : Tier) : Within (operator i.signs) := by
  refine .named (.firstOf fun m hm => ?_)
  obtain ⟨c, hc, rfl⟩ := List.mem_map.mp hm
  exact (within_token (i.exact_starts c hc).1).map _

/-- So do symbols and words. -/
theorem within_symbolOrWord {p : Pattern} (hp : p.Exact) : Within (symbolOrWord p) :=
  .named ((within_token hp).map _)

theorem within_name : Within name := by
  have reserved : Within reservedName := .named ((within_token (Token.exact_words _)).map _)
  exact .named (reserved.absent.bind fun _ => (within_token Token.exact_identifier).map _)

theorem within_number : Within number := .named ((within_token Token.exact_number).map _)

theorem within_text : Within text := .named ((within_token Token.exact_quoted).map _)

/-- So do literals, of each kind. -/
theorem within_literal : Within literal := by
  have truth : Within truth := .named ((within_token Token.exact_truthWord).map _)
  have null : Within null := .named ((within_token Token.exact_nullWord).map _)
  exact .named (.firstOf (by simp [within_number, within_text, truth, null]))

theorem within_key : Within key :=
  .named (.firstOf (by simp [within_text, within_number, within_name.map]))

/-! ### Collections and atoms -/

/-- A series keeps to the text if its items do. -/
theorem within_series (hm : Within m) : Within (series m) := by
  have next : Within (nextItem m) := .named ((within_symbol _).bind fun _ => hm)
  exact .named (hm.bind fun _ => next.many.map _)

/-- Items between brackets, with white space around them. -/
theorem within_bracketed (hm : Within m) (l r : String) {β : Type} (g : Option (List α) → β) :
    Within do
      symbol l
      gap
      let as ← optional (series m)
      gap
      symbol r
      return g as :=
  (within_symbol l).bind fun _ => within_gap.bind fun _ => (within_series hm).optional.bind fun _ =>
    within_gap.bind fun _ => (within_symbol r).map _

theorem within_inner (he : Within expr) : Within (inner expr) :=
  .named ((within_symbol _).bind fun _ => he.bind fun _ => (within_symbol _).map _)

/-- A pair does if its value does. -/
theorem within_pair (he : Within expr) : Within (pair expr) :=
  .named (within_gap.bind fun _ => within_key.bind fun _ => within_gap.bind fun _ =>
    (within_symbol _).bind fun _ => he.map _)

/-- An atom does if what stands in brackets does. -/
theorem within_atom (he : Within expr) : Within (atom expr) := by
  have literal : Within (do return Expr.literal (← literal)) := within_literal.map _
  have var : Within var := .named (within_name.map _)
  have list : Within (list expr) := .named (within_bracketed he _ _ _)
  have dict : Within (dict expr) := .named (within_bracketed (within_pair he) _ _ _)
  exact .named (.firstOf (by simp [literal, var, within_inner he, list, dict]))

/-- A factor does, since its atom and its trailers do. -/
theorem within_factor (he : Within expr) : Within (factor expr) := by
  have call : Within (call expr) := .named (within_bracketed he _ _ _)
  have index : Within (index expr) :=
    .named ((within_symbol _).bind fun _ => he.bind fun _ => (within_symbol _).map _)
  have member : Within member :=
    .named ((within_symbol _).bind fun _ => within_gap.bind fun _ => within_name.map _)
  have trailer : Within (trailer expr) := .named (.firstOf (by simp [call, index, member]))
  have next : Within (nextTrailer expr) := .named (within_gap.bind fun _ => trailer)
  exact .named ((within_atom he).bind fun _ => next.many.map _)

/-! ### Operators -/

/-- A minus sign stands in front of what keeps to the text. -/
theorem within_unary (he : Within expr) (hu : Within unary) : Within (Rule.unary expr unary) := by
  have minus : Within (minus unary) :=
    .named ((within_symbol _).bind fun _ => within_gap.bind fun _ => hu.map _)
  exact .named (.firstOf (by simp [minus, within_factor he]))

/-- A chain of operators does if its operands and signs do. -/
theorem within_chain (ho : Within operand) (hop : Within op) : Within (chain operand op) := by
  have step : Within (step operand op) :=
    .named (within_gap.bind fun _ => hop.bind fun _ => within_gap.bind fun _ => ho.map _)
  exact .named (ho.bind fun _ => step.many.map _)

theorem within_comparison (hu : Within unary) : Within (comparison unary) := by
  have product : Within (product unary) := within_chain hu (within_operator .product)
  have sum : Within (sum unary) := within_chain product (within_operator .sum)
  exact within_chain sum (within_operator .comparison)

/-- A denial does if what it denies does. -/
theorem within_negation (hu : Within unary) (hn : Within negation) :
    Within (Rule.negation unary negation) := by
  have denial : Within (denial negation) :=
    .named ((within_symbolOrWord Token.exact_denial).bind fun _ => within_gap.bind fun _ => hn.map _)
  exact .named (.firstOf (by simp [denial, within_comparison hu]))

theorem within_nextOperand (hc : Within connective) (ho : Within operand) :
    Within (nextOperand connective operand) :=
  .named (within_gap.bind fun _ => hc.bind fun _ => within_gap.bind fun _ => ho)

theorem within_disjunction (hn : Within negation) : Within (disjunction negation) := by
  have conjunction : Within (conjunction negation) :=
    .named (hn.bind fun _ =>
      (within_nextOperand (within_symbolOrWord Token.exact_conjunctive) hn).many.map _)
  exact .named (conjunction.bind fun _ =>
    (within_nextOperand (within_symbolOrWord Token.exact_disjunctive) conjunction).many.map _)

/-- A choice does if its test and its branches do. -/
theorem within_choice (hn : Within negation) (hc : Within choice) :
    Within (Rule.choice negation choice) := by
  have branches : Within (branches choice) :=
    .named (within_gap.bind fun _ => (within_symbol _).bind fun _ => within_gap.bind fun _ =>
      hc.bind fun _ => within_gap.bind fun _ => (within_symbol _).bind fun _ =>
        within_gap.bind fun _ => hc.map _)
  refine .named ((within_disjunction hn).bind fun test => branches.optional.bind fun b => ?_)
  cases b with
  | none => exact within_pure test
  | some b => exact within_pure (Expr.choice test b.1 b.2)

theorem within_expr (hc : Within choice) : Within (Rule.expr choice) :=
  .named (within_gap.bind fun _ => hc.bind fun _ => within_gap.map _)

end Rule

/-! ### The rules together -/

/-- All rules that other rules refer back to are within the text. -/
structure Rules.AreWithin (r : Rules) : Prop where
  expr : r.expr.Within
  choice : r.choice.Within
  negation : r.negation.Within
  unary : r.unary.Within

/-- The rules a level deeper keep to the text. -/
theorem Rules.AreWithin.next {r : Rules} (h : r.AreWithin) : r.next.AreWithin := by
  have unary := Rule.within_unary h.expr h.unary
  have negation := Rule.within_negation unary h.negation
  have choice := Rule.within_choice negation h.choice
  exact ⟨Rule.within_expr choice, choice, negation, unary⟩

/-- **All rules are within the text**, to any depth. -/
theorem within_rules (depth : Nat) : (rules depth).AreWithin := by
  induction depth with
  | zero => exact ⟨Matcher.within_fail, Matcher.within_fail, Matcher.within_fail,
      Matcher.within_fail⟩
  | succ depth ih => exact ih.next

end Trellis.Expr
