import Trellis.Proofs.Syntax.Context
import Trellis.Proofs.Syntax.Settled

/-!
# Proofs — Syntax — Printing

The tokens of a compiled expression, with any white space between them, are compiled to that
expression again (`compile_tokens`).

`Prints sp e` says that the tokens of `e` are read as `e`.  There is one lemma for each form of
expression, and one for each way in which a derivation puts expressions together (`prints_disjOf`
and so on); so a derivation whose lexemes are settled stands for something that prints
(`Tree.prints_image`).
-/

namespace Trellis.Expr

open Trellis.Text (isSpace)

variable {sp : Spelling} {e : Expr} {es : List Expr} {s u v w k : List Char}
  {ts : List (List Char)}

/-- The tokens of the expression are read as the expression, in front of every break. -/
def Prints (sp : Spelling) (e : Expr) : Prop :=
  ∀ s k, Spaced (e.tokens sp) s → Breaks k → Reading.At (.nth e.level) s e k

/-- A literal is read as a key. -/
def PrintsKey (sp : Spelling) (l : Literal) : Prop :=
  ∀ k, Breaks k → Reading (.one .key) (literalToken sp l) l k

/-- The tokens of a call, an index or a member are read as such, with white space before them. -/
def PrintsTail (sp : Spelling) (x : Tail) : Prop :=
  ∀ s k, Led (tokensOfTail sp x) s → Breaks k → Reading (.one .nextTrailer) s x k

/-! ### White space -/

/-- White space breaks what stands in front of it. -/
theorem Gap.breaks (hw : Gap w) (k : List Char) : Breaks (w ++ k) := by
  obtain ⟨hne, hspace⟩ := hw
  cases w with
  | nil => exact absurd rfl hne
  | cons c w =>
      rintro a ⟨⟩
      simp [isBreak, hspace c List.mem_cons_self]

/-- Tokens that begin with white space break it as well. -/
theorem Led.breaks (h : Led ts s) (hk : Breaks k) : Breaks (s ++ k) := by
  cases h with
  | nil => exact hk
  | cons hw _ =>
      rw [List.append_assoc]
      exact hw.breaks _

/-- A lexeme that is one alone is one in front of every break. -/
theorem greedy_of_alone {x : Lexeme} {t : List Char} (hx : x ≠ .space) (h : greedy x t [])
    (hk : Breaks k) : greedy x t k := greedy_append hx hk h

/-! ### Operands -/

/-- An expression has tokens. -/
theorem Prints.tokens_ne_nil (h : Prints sp e) : e.tokens sp ≠ [] := by
  intro hnil
  have hs : Spaced (e.tokens sp) [] := by
    rw [hnil]
    rfl
  obtain ⟨c, t, hc, -⟩ := (h [] [] hs nofun).solid
  cases hc

/-- The tokens of an expression stand alone, with any white space around them. -/
theorem Prints.standing (h : Prints sp e) (hs : Spaced (e.tokens sp) s) {w w' : List Char}
    (hw : ∀ c ∈ w, isSpace c = true) (hw' : ∀ c ∈ w', isSpace c = true) : Standing w s w' e where
  before := hw
  behind := hw'
  head := (h s [] hs nofun).solid
  reads _ hu := (h s _ hs (breaks_of_spaces hw' hu)).loosen (Nat.zero_le _)

/-- An operand is read at the level that is due, in parentheses if it is looser. -/
theorem Prints.operand (h : Prints sp e) {n : Nat} (hn : n ≤ 9)
    (hs : Spaced (operandTokens n e.level (e.tokens sp)) s) (hk : Breaks k) :
    Reading.At (.nth n) s e k := by
  unfold operandTokens at hs
  split at hs
  · obtain ⟨v, rfl, hv⟩ := hs
    obtain ⟨u, u', rfl, hu, hu'⟩ := led_append.mp hv
    obtain ⟨w, s, rfl, hw, hs⟩ := (led_iff h.tokens_ne_nil).mp hu
    obtain ⟨w', rfl, hw'⟩ := led_singleton.mp hu'
    have hinner := (h.standing hs hw.2 hw'.2).expr (k := ')' :: k) (closes_cons rfl rfl)
    have : Reading.At (.nth 9) ('(' :: (w ++ (s ++ w') ++ [')'])) e k := Reading.inner hinner
    have := this.loosen hn
    simpa using this
  · next hlevel =>
    exact (h s k hs hk).loosen (Nat.le_of_not_lt hlevel)

/-- So has an operand, with parentheses or without. -/
theorem Prints.operandTokens_ne_nil (h : Prints sp e) (n : Nat) :
    operandTokens n e.level (e.tokens sp) ≠ [] := by
  unfold operandTokens
  split
  · nofun
  · exact h.tokens_ne_nil

/-- An operand with white space before it. -/
theorem Prints.led_operand (h : Prints sp e) {n : Nat} (hn : n ≤ 9)
    (hs : Led (operandTokens n e.level (e.tokens sp)) s) :
    ∃ w u, s = w ++ u ∧ Gap w ∧ ∀ k, Breaks k →
      greedy .space w (u ++ k) ∧ Reading.At (.nth n) u e k := by
  obtain ⟨w, u, rfl, hw, hu⟩ := (led_iff (h.operandTokens_ne_nil n)).mp hs
  refine ⟨w, u, rfl, hw, fun k hk => ?_⟩
  have hread := h.operand hn hu hk
  exact ⟨gap_before hw.2 hread.solid k, hread⟩

/-- Parts whose tokens are read one by one. -/
theorem reading_many {p : Phrase} {tk : p.Value → List (List Char)} {as : List p.Value}
    (h : ∀ a ∈ as, ∀ s k, Led (tk a) s → Breaks k → Reading (.one p) s a k)
    (hv : Led (as.flatMap tk) v) (hk : Breaks k) : Reading (.many p) v as k := by
  induction as generalizing v with
  | nil =>
      obtain rfl := led_nil.mp hv
      exact .nil p k
  | cons a as ih =>
      obtain ⟨ha, has⟩ := List.forall_mem_cons.mp h
      rw [List.flatMap_cons] at hv
      obtain ⟨u, u', rfl, hu, hu'⟩ := led_append.mp hv
      exact .cons (ha u _ hu (hu'.breaks hk)) (ih has hu')

/-! ### Words and operators -/

namespace Spelling

/-- The word between operands. -/
def word (sp : Spelling) : Connective → String
  | .disj => sp.disj
  | .conj => sp.conj

/-- The word for a truth value is one, in either spelling. -/
theorem greedy_yes (sp : Spelling) :
    greedy .truth sp.yes.toList [] ∧
      (sp.yes.toList = "true".toList || sp.yes.toList = "True".toList) = true := by
  have hall : ∀ w ∈ ["true", "True"], greedy .truth w.toList [] ∧
      (w.toList = "true".toList || w.toList = "True".toList) = true := by
    simp only [List.forall_mem_cons]
    exact ⟨⟨rfl, rfl⟩, ⟨rfl, rfl⟩, nofun⟩
  exact hall _ sp.yes_mem

/-- So is the word for the other. -/
theorem greedy_no (sp : Spelling) :
    greedy .truth sp.no.toList [] ∧
      (sp.no.toList = "true".toList || sp.no.toList = "True".toList) = false := by
  have hall : ∀ w ∈ ["false", "False"], greedy .truth w.toList [] ∧
      (w.toList = "true".toList || w.toList = "True".toList) = false := by
    simp only [List.forall_mem_cons]
    exact ⟨⟨rfl, rfl⟩, ⟨rfl, rfl⟩, nofun⟩
  exact hall _ sp.no_mem

/-- The word for nothing is one, in either spelling. -/
theorem greedy_null (sp : Spelling) : greedy .null sp.null.toList [] := by
  have hall : ∀ w ∈ ["null", "None", "undefined"], greedy .null w.toList [] := by
    simp only [List.forall_mem_cons]
    exact ⟨rfl, rfl, rfl, nofun⟩
  exact hall _ sp.null_mem

/-- A denial is one, as a word or as a sign. -/
theorem greedy_denial (sp : Spelling) : greedy .denial sp.denial.toList [] := by
  have hall : ∀ w ∈ ["not", "!"], greedy .denial w.toList [] := by
    simp only [List.forall_mem_cons]
    exact ⟨rfl, rfl, nofun⟩
  exact hall _ sp.denial_mem

/-- So are connectives. -/
theorem greedy_word (sp : Spelling) (c : Connective) :
    greedy (.connective c) (sp.word c).toList [] := by
  cases c with
  | disj =>
      have hall : ∀ w ∈ ["or", "||"], greedy (.connective .disj) w.toList [] := by
        simp only [List.forall_mem_cons]
        exact ⟨rfl, rfl, nofun⟩
      exact hall _ sp.disj_mem
  | conj =>
      have hall : ∀ w ∈ ["and", "&&"], greedy (.connective .conj) w.toList [] := by
        simp only [List.forall_mem_cons]
        exact ⟨rfl, rfl, nofun⟩
      exact hall _ sp.conj_mem

end Spelling

/-- The two words are taken as one operator, whatever white space is between them. -/
theorem greedy_notIn (hw : Gap w) :
    greedy (.sign .comparison .notIn) ("not".toList ++ (w ++ "in".toList)) [] := by
  have hwords : Token.notInWords ("not".toList ++ (w ++ "in".toList) ++ []) =
      some ("not".toList ++ (w ++ "in".toList), []) :=
    Token.notInWords_eq_some.mpr ⟨w, hw.1, hw.2, by simp, by simp, rfl⟩
  have hsymbols : Token.firstSign (Token.comparisons.take 8)
      ("not".toList ++ (w ++ "in".toList) ++ []) = none := by
    refine firstSign_eq_none.mpr fun c hc => ?_
    simp only [Token.comparisons, List.take_succ_cons, List.take_zero, List.mem_cons,
      List.not_mem_nil, or_false] at hc
    rcases hc with rfl | rfl | rfl | rfl | rfl | rfl | rfl | rfl <;> rfl
  show List.findSome? _ (Token.comparisons.take 8 ++ [_, _]) = _
  rw [Token.firstSign] at hsymbols
  rw [List.findSome?_append, hsymbols, Option.none_or]
  simp only [List.findSome?_cons, hwords, Option.map_some]

/-- The tokens of an operator are taken as that operator. -/
theorem greedy_operator {o : Operator} (hs : Spaced (operatorTokens o) s) :
    greedy (.sign o.tier o) s [] := by
  cases o with
  | notIn =>
      obtain ⟨v, rfl, hv⟩ := hs
      obtain ⟨w, rfl, hw⟩ := led_singleton.mp hv
      exact greedy_notIn hw
  | _ =>
      obtain rfl := spaced_singleton.mp hs
      rfl

/-! ### Atoms -/

/-- Literals that are written out. -/
def IsPrintable : Literal → Prop
  | .whole n                  => n < 10 ^ Decimal.digitLimit
  | .unreadable | .floating _ => False
  | _                         => True

/-- An expression of one token is read if the token is. -/
theorem prints_of_token {t : List Char} (ht : e.tokens sp = [t])
    (h : ∀ k, Breaks k → Reading.At (.nth e.level) t e k) : Prints sp e := by
  intro s k hs hk
  rw [ht] at hs
  obtain rfl := spaced_singleton.mp hs
  exact h k hk

/-- A literal that can be written out is read. -/
theorem prints_literal {l : Literal} (h : IsPrintable l) : Prints sp (.literal l) := by
  refine prints_of_token (by rw [tokens]) fun k hk => ?_
  cases l with
  | null => exact .null (greedy_of_alone nofun sp.greedy_null hk)
  | truth b =>
      cases b with
      | true =>
          obtain ⟨hword, heq⟩ := sp.greedy_yes
          have := Reading.truth (greedy_of_alone nofun hword hk)
          rwa [heq] at this
      | false =>
          obtain ⟨hword, heq⟩ := sp.greedy_no
          have := Reading.truth (greedy_of_alone nofun hword hk)
          rwa [heq] at this
  | whole n =>
      have hnumber : greedy .number (Nat.toDigits 10 n) [] :=
        Token.number_of_isNumeral (Decimal.isNumeral_toDigits n)
      have := Reading.number (greedy_of_alone nofun hnumber hk)
      rwa [Token.numberLiteral_toDigits h] at this
  | text t =>
      have htext : greedy .text (Token.quote t) [] := Token.quoted_quote t
      have := Reading.text (greedy_of_alone nofun htext hk)
      rwa [Token.unquote_quote] at this
  | unreadable | floating => cases h

/-- A name is read. -/
theorem prints_var {n : String} (h : greedy .name n.toList []) : Prints sp (.var n) := by
  refine prints_of_token (by rw [tokens]) fun k hk => ?_
  have := Reading.var (greedy_of_alone nofun h hk)
  rwa [String.ofList_toList] at this

/-- A text is read as a key, between quotes. -/
theorem printsKey_text (t : String) : PrintsKey sp (.text t) := by
  intro k hk
  have htext : greedy .text (Token.quote t) [] := Token.quoted_quote t
  have := Reading.textKey (greedy_of_alone nofun htext hk)
  rwa [Token.unquote_quote] at this

/-- So is a number. -/
theorem printsKey_whole {n : Nat} (h : n < 10 ^ Decimal.digitLimit) :
    PrintsKey sp (.whole n) := by
  intro k hk
  have hnumber : greedy .number (Nat.toDigits 10 n) [] :=
    Token.number_of_isNumeral (Decimal.isNumeral_toDigits n)
  have := Reading.numberKey (greedy_of_alone nofun hnumber hk)
  rwa [Token.numberLiteral_toDigits h] at this

/-! ### Items between commas -/

/-- The tokens of an item are read as one, with any white space around them. -/
structure PrintsItem (p : Phrase) (tk : p.Value → List (List Char)) (a : p.Value) : Prop where
  ne_nil : tk a ≠ []
  item : ∀ w s w', (∀ c ∈ w, isSpace c = true) → Spaced (tk a) s → (∀ c ∈ w', isSpace c = true) →
    Item p (w ++ (s ++ w')) a

/-- An expression that is read is read as an item. -/
theorem Prints.printsItem (h : Prints sp e) : PrintsItem (.level .expr) (tokens sp) e where
  ne_nil := h.tokens_ne_nil
  item _ _ _ hw hs hw' := (h.standing hs hw hw').item

/-- A pair is read as an item if its key and its value are read. -/
theorem printsItem_pair {q : Literal × Expr} (hkey : PrintsKey sp q.1) (h : Prints sp q.2) :
    PrintsItem .pair (tokensOfPair sp) q where
  ne_nil := by
    rw [tokensOfPair]
    exact List.cons_ne_nil _ _
  item w s w' hw hs hw' := by
    obtain ⟨l, e⟩ := q
    rw [tokensOfPair] at hs
    obtain ⟨v, rfl, hv⟩ := hs
    obtain ⟨v₁, v, rfl, hv₁, hv⟩ := led_cons.mp hv
    obtain ⟨v₂, s, rfl, hv₂, hs⟩ := (led_iff h.tokens_ne_nil).mp hv
    have hvalue := (h.standing hs hv₂.2 hw').item
    have := item_pair hw hv₁.2 (hkey [] breaks_nil).solid_key hkey hvalue
    simpa using this

section Series

variable {p : Phrase} {tk : p.Value → List (List Char)} {as : List p.Value}

/-- The texts of the items, to which the white space around them belongs. -/
theorem items_of_led (h : ∀ a ∈ as, PrintsItem p tk a) {a : p.Value} (ha : PrintsItem p tk a)
    {w' : List Char} (hw : ∀ c ∈ w, isSpace c = true) (hs : Spaced (tk a) s)
    (hv : Led (as.flatMap fun a => [','] :: tk a) v) (hw' : ∀ c ∈ w', isSpace c = true) :
    ∃ xs : List (List Char × p.Value), xs.map (·.2) = a :: as ∧
      [','].intercalate (xs.map (·.1)) = w ++ (s ++ (v ++ w')) ∧ ∀ x ∈ xs, Item p x.1 x.2 := by
  induction as generalizing a w s v with
  | nil =>
      obtain rfl := led_nil.mp hv
      refine ⟨[(w ++ (s ++ w'), a)], rfl, by simp, ?_⟩
      exact List.forall_mem_singleton.mpr (ha.item w s w' hw hs hw')
  | cons b as ih =>
      obtain ⟨hb, has⟩ := List.forall_mem_cons.mp h
      rw [List.flatMap_cons] at hv
      obtain ⟨u, v, rfl, hu, hrest⟩ := led_append.mp hv
      obtain ⟨w₁, u, rfl, hw₁, hb'⟩ := led_cons.mp hu
      obtain ⟨w₂, s₂, rfl, hw₂, hs₂⟩ := (led_iff hb.ne_nil).mp hb'
      obtain ⟨xs, hvalues, htexts, hxs⟩ := ih has hb hw₂.2 hs₂ hrest
      refine ⟨(w ++ (s ++ w₁), a) :: xs, by rw [List.map_cons, hvalues], ?_, ?_⟩
      · cases xs with
        | nil => cases hvalues
        | cons x xs =>
            rw [List.map_cons] at htexts
            rw [List.map_cons, List.map_cons, List.intercalate_cons_cons, htexts]
            simp
      · exact List.forall_mem_cons.mpr ⟨ha.item w s w₁ hw hs hw₁.2, hxs⟩

/-- Items between commas in front of a closing bracket. -/
theorem series_of_led (hp : p.isItem = true) (h : ∀ a ∈ as, PrintsItem p tk a) {c : Char}
    (hc : isBreak c = true) (hspace : isSpace c = false) (hv : Led (commas tk as ++ [[c]]) v)
    (k : List Char) :
    ∃ w s as', v = w ++ (s ++ [c]) ∧ Rule.orNothing as' = as ∧ greedy .space w (s ++ c :: k) ∧
      Reading (.perhaps (.series p)) s as' (c :: k) := by
  obtain ⟨u, u', rfl, hu, hu'⟩ := led_append.mp hv
  obtain ⟨w', rfl, hw'⟩ := led_singleton.mp hu'
  cases as with
  | nil =>
      obtain rfl := led_nil.mp hu
      exact ⟨w', [], none, by simp, rfl, gap_before_symbol hw'.2 hspace, .absent _ _⟩
  | cons a as =>
      obtain ⟨ha, has⟩ := List.forall_mem_cons.mp h
      obtain ⟨x, v, rfl, hx, hrest⟩ := led_append.mp hu
      obtain ⟨w, s, rfl, hw, hs⟩ := (led_iff ha.ne_nil).mp hx
      obtain ⟨xs, hvalues, htexts, hxs⟩ := items_of_led has ha hw.2 hs hrest hw'.2
      obtain ⟨g, t, as', ht, has', hgap, hread⟩ :=
        series_of_items hp hxs (k := c :: k) (closes_cons hc hspace)
      refine ⟨g, t, as', ?_, has'.trans hvalues, hgap, hread⟩
      rw [← List.append_assoc g, ← ht, htexts]
      simp

end Series

/-! ### Collections, calls, indices and members -/

/-- A list is read if its items are. -/
theorem prints_list (h : ∀ e ∈ es, Prints sp e) : Prints sp (.list es) := by
  intro s k hs hk
  rw [tokens, tokensBetween_eq] at hs
  obtain ⟨v, rfl, hv⟩ := hs
  obtain ⟨w, s, as, rfl, has, hw, hread⟩ :=
    series_of_led (p := .level .expr) rfl (fun e he => (h e he).printsItem) rfl rfl hv k
  have := Reading.list (v := []) hw hread (gap_before_symbol nofun rfl)
  rwa [has] at this

/-- A dictionary is read if its pairs are. -/
theorem prints_dict {ps : List (Literal × Expr)} (h : ∀ q ∈ ps, PrintsKey sp q.1 ∧ Prints sp q.2) :
    Prints sp (.dict ps) := by
  intro s k hs hk
  rw [tokens, tokensOfPairs_eq] at hs
  obtain ⟨v, rfl, hv⟩ := hs
  obtain ⟨w, s, as, rfl, has, hw, hread⟩ :=
    series_of_led (p := .pair) rfl (fun q hq => printsItem_pair (h q hq).1 (h q hq).2) rfl rfl hv k
  have := Reading.dict (v := []) hw hread (gap_before_symbol nofun rfl)
  rwa [has] at this

/-- A call is read if its arguments are. -/
theorem printsTail_call (h : ∀ e ∈ es, Prints sp e) : PrintsTail sp (.call es) := by
  intro s k hs hk
  rw [tokensOfTail, tokensBetween_eq] at hs
  obtain ⟨w₀, v, rfl, hw₀, hv⟩ := led_cons.mp hs
  obtain ⟨w, s, as, rfl, has, hw, hread⟩ :=
    series_of_led (p := .level .expr) rfl (fun e he => (h e he).printsItem) rfl rfl hv k
  have := Reading.call (v := []) hw hread (gap_before_symbol nofun rfl)
  rw [has] at this
  exact .nextTrailer (gap_before hw₀.2 (solid_cons rfl) k) this

/-- An index is read if its expression is. -/
theorem printsTail_index (h : Prints sp e) : PrintsTail sp (.index e) := by
  intro s k hs hk
  rw [tokensOfTail] at hs
  obtain ⟨w₀, v, rfl, hw₀, hv⟩ := led_cons.mp hs
  obtain ⟨u, u', rfl, hu, hu'⟩ := led_append.mp hv
  obtain ⟨w, t, rfl, hw, ht⟩ := (led_iff h.tokens_ne_nil).mp hu
  obtain ⟨w', rfl, hw'⟩ := led_singleton.mp hu'
  have hinner := (h.standing ht hw.2 hw'.2).expr (k := ']' :: k) (closes_cons rfl rfl)
  have hindex := Reading.index hinner
  have := Reading.nextTrailer (gap_before hw₀.2 (solid_cons rfl) k) hindex
  simpa using this

/-- A member is read behind its point. -/
theorem printsTail_member {n : String} (h : greedy .name n.toList []) :
    PrintsTail sp (.member n) := by
  intro s k hs hk
  rw [tokensOfTail] at hs
  obtain ⟨w₀, v, rfl, hw₀, hv⟩ := led_cons.mp hs
  obtain ⟨w, rfl, hw⟩ := led_singleton.mp hv
  have hname : greedy .name n.toList k := greedy_of_alone nofun h hk
  have hmember := Reading.member (gap_before hw.2 (solid_of_greedy rfl h) k) hname
  rw [String.ofList_toList] at hmember
  exact .nextTrailer (gap_before hw₀.2 (solid_cons rfl) k) hmember

theorem factorOf_of_ne_nil {xs : List Tail} (h : xs ≠ []) : factorOf e xs = .factor e xs := by
  cases xs with
  | nil => exact absurd rfl h
  | cons x xs => rfl

/-- An atom is read with the calls, indices and members behind it. -/
theorem prints_factor {xs : List Tail} (h : Prints sp e) (hne : xs ≠ [])
    (hxs : ∀ x ∈ xs, PrintsTail sp x) : Prints sp (.factor e xs) := by
  intro s k hs hk
  rw [tokens, tokensOfTails_eq] at hs
  obtain ⟨u, v, rfl, hu, hv⟩ := (spaced_append (h.operandTokens_ne_nil 9)).mp hs
  have hhead := h.operand (Nat.le_refl 9) hu (hv.breaks hk)
  have htails : Reading (.many .nextTrailer) v xs k := reading_many hxs hv hk
  have := Reading.factor hhead htails
  rwa [factorOf_of_ne_nil hne] at this

/-- Without calls, indices and members, a factor is its atom. -/
theorem prints_factorOf {xs : List Tail} (h : Prints sp e) (hxs : ∀ x ∈ xs, PrintsTail sp x) :
    Prints sp (factorOf e xs) := by
  cases xs with
  | nil => exact h
  | cons x xs => exact prints_factor h (List.cons_ne_nil _ _) hxs

/-! ### Operators -/

/-- A minus sign is read with its operand. -/
theorem prints_neg (h : Prints sp e) : Prints sp (.neg e) := by
  intro s k hs hk
  rw [tokens] at hs
  obtain ⟨v, rfl, hv⟩ := hs
  obtain ⟨w, u, rfl, hw, hu⟩ := h.led_operand (by decide) hv
  obtain ⟨hgap, hread⟩ := hu k hk
  have hminus := Reading.minus hgap hread
  exact hminus

/-- So is a denial. -/
theorem prints_not (h : Prints sp e) : Prints sp (.not e) := by
  intro s k hs hk
  rw [tokens] at hs
  obtain ⟨v, rfl, hv⟩ := hs
  obtain ⟨w, u, rfl, hw, hu⟩ := h.led_operand (by decide) hv
  obtain ⟨hgap, hread⟩ := hu k hk
  exact Reading.denial (greedy_of_alone nofun sp.greedy_denial (hw.breaks _)) hgap hread

/-- The number of the level of a connective. -/
def Connective.number : Connective → Nat
  | .disj => 1
  | .conj => 2

/-- The operand of a connective is one level above it. -/
theorem Connective.nth_operand (c : Connective) :
    Level.nth (c.number + 1) = c.operand ∧ c.number + 1 ≤ 9 := by
  cases c <;> exact ⟨rfl, by decide⟩

/-- So is the operand of an operator. -/
theorem Tier.nth_operand (i : Tier) :
    Level.nth (i.number + 1) = i.operand ∧ Level.nth i.number = .chain i ∧ i.number + 1 ≤ 9 := by
  cases i <;> exact ⟨rfl, rfl, by decide⟩

/-- One more operand of a connective. -/
theorem reading_operand {c : Connective} (h : Prints sp e)
    (hs : Led ((sp.word c).toList :: operandTokens (c.number + 1) e.level (e.tokens sp)) s)
    (hk : Breaks k) : Reading (.one (.operand c)) s e k := by
  obtain ⟨hlevel, hle⟩ := c.nth_operand
  obtain ⟨w, v, rfl, hw, hv⟩ := led_cons.mp hs
  obtain ⟨w', u, rfl, hw', hu⟩ := h.led_operand hle hv
  obtain ⟨hgap, hread⟩ := hu k hk
  rw [hlevel] at hread
  have hword := sp.greedy_word c
  exact .operand (gap_before hw.2 (solid_of_greedy rfl hword) _)
    (greedy_of_alone nofun hword (hw'.breaks _)) hgap hread

/-- Operands with a connective between them. -/
theorem reading_operands {c : Connective} (h : Prints sp e) (hes : ∀ x ∈ es, Prints sp x)
    (hs : Spaced (tokensBetween sp (c.number + 1) (sp.word c).toList (e :: es)) s)
    (hk : Breaks k) :
    ∃ u v, s = u ++ v ∧ Reading.At c.operand u e (v ++ k) ∧
      Reading (.many (.operand c)) v es k := by
  obtain ⟨hlevel, hle⟩ := c.nth_operand
  rw [tokensBetween, tokensAfter_eq] at hs
  obtain ⟨u, v, rfl, hu, hv⟩ := (spaced_append (h.operandTokens_ne_nil _)).mp hs
  have hhead := h.operand hle hu (hv.breaks hk)
  rw [hlevel] at hhead
  refine ⟨u, v, rfl, hhead, ?_⟩
  exact reading_many (p := .operand c) (fun x hx s k => reading_operand (hes x hx)) hv hk

/-- Operands with `or` between them are read as a disjunction. -/
theorem prints_disj (h : Prints sp e) (hne : es ≠ []) (hes : ∀ x ∈ es, Prints sp x) :
    Prints sp (.disj (e :: es)) := by
  intro s k hs hk
  rw [tokens] at hs
  obtain ⟨u, v, rfl, hhead, hrest⟩ := reading_operands (c := .disj) h hes hs hk
  have := Reading.disjunction hhead hrest
  cases es with
  | nil => exact absurd rfl hne
  | cons x xs => exact this

/-- Operands with `and` between them are read as a conjunction. -/
theorem prints_conj (h : Prints sp e) (hne : es ≠ []) (hes : ∀ x ∈ es, Prints sp x) :
    Prints sp (.conj (e :: es)) := by
  intro s k hs hk
  rw [tokens] at hs
  obtain ⟨u, v, rfl, hhead, hrest⟩ := reading_operands (c := .conj) h hes hs hk
  have := Reading.conjunction hhead hrest
  cases es with
  | nil => exact absurd rfl hne
  | cons x xs => exact this

/-- Without other operands, what is joined by `or` is the first one. -/
theorem prints_disjOf (h : Prints sp e) (hes : ∀ x ∈ es, Prints sp x) :
    Prints sp (disjOf e es) := by
  cases es with
  | nil => exact h
  | cons x xs => exact prints_disj h (List.cons_ne_nil _ _) hes

/-- Without other operands, what is joined by `and` is the first one. -/
theorem prints_conjOf (h : Prints sp e) (hes : ∀ x ∈ es, Prints sp x) :
    Prints sp (conjOf e es) := by
  cases es with
  | nil => exact h
  | cons x xs => exact prints_conj h (List.cons_ne_nil _ _) hes

/-- An operator has tokens; `not in` has two. -/
theorem operatorTokens_ne_nil (o : Operator) : operatorTokens o ≠ [] := by
  cases o <;> nofun

/-- One more operator and its right operand. -/
theorem reading_step {i : Tier} {x : Operator × Expr} (hi : x.1.tier = i) (h : Prints sp x.2)
    (hs : Led (tokensOfStep sp (i.number + 1) x) s) (hk : Breaks k) :
    Reading (.one (.step i)) s x k := by
  obtain ⟨o, e⟩ := x
  subst hi
  obtain ⟨hlevel, -, hle⟩ := o.tier.nth_operand
  rw [tokensOfStep] at hs
  obtain ⟨v, v', rfl, hv, hv'⟩ := led_append.mp hs
  obtain ⟨w, t, rfl, hw, ht⟩ := (led_iff (operatorTokens_ne_nil o)).mp hv
  obtain ⟨w', u, rfl, hw', hu⟩ := h.led_operand hle hv'
  obtain ⟨hgap, hread⟩ := hu k hk
  rw [hlevel] at hread
  have hsign := greedy_operator ht
  rw [List.append_assoc]
  exact .step (gap_before hw.2 (solid_of_greedy rfl hsign) _)
    (greedy_of_alone (by simp) hsign (hw'.breaks _)) hgap hread

theorem chainOf_of_ne_nil {xs : List (Operator × Expr)} (h : xs ≠ []) :
    chainOf e xs = .chain e xs := by
  cases xs with
  | nil => exact absurd rfl h
  | cons x xs => rfl

/-- Operands with operators of one tier between them are read as a chain. -/
theorem prints_chain {i : Tier} {xs : List (Operator × Expr)} (h : Prints sp e) (hne : xs ≠ [])
    (hxs : ∀ x ∈ xs, x.1.tier = i ∧ Prints sp x.2) : Prints sp (.chain e xs) := by
  intro s k hs hk
  have hnumber : (chain e xs).level = i.number := by
    cases xs with
    | nil => exact absurd rfl hne
    | cons x xs => exact congrArg Tier.number (hxs x List.mem_cons_self).1
  obtain ⟨hlevel, hchain, hle⟩ := i.nth_operand
  rw [tokens, tokensOfSteps_eq, hnumber] at hs
  rw [hnumber, hchain]
  obtain ⟨u, v, rfl, hu, hv⟩ := (spaced_append (h.operandTokens_ne_nil _)).mp hs
  have hhead := h.operand hle hu (hv.breaks hk)
  rw [hlevel] at hhead
  have hsteps : Reading (.many (.step i)) v xs k :=
    reading_many (p := .step i) (fun x hx s k => reading_step (hxs x hx).1 (hxs x hx).2) hv hk
  have := Reading.chain hhead hsteps
  rwa [chainOf_of_ne_nil hne] at this

/-- Without operators, a chain is its first operand. -/
theorem prints_chainOf {i : Tier} {xs : List (Operator × Expr)} (h : Prints sp e)
    (hxs : ∀ x ∈ xs, x.1.tier = i ∧ Prints sp x.2) : Prints sp (chainOf e xs) := by
  cases xs with
  | nil => exact h
  | cons x xs => exact prints_chain h (List.cons_ne_nil _ _) hxs

/-- A choice is read with its marks, and needs no parentheses inside. -/
theorem prints_choice {test yes no : Expr} (ht : Prints sp test) (hy : Prints sp yes)
    (hn : Prints sp no) : Prints sp (.choice test yes no) := by
  intro s k hs hk
  rw [tokens, List.append_assoc] at hs
  obtain ⟨u, v, rfl, hu, hv⟩ := (spaced_append (ht.operandTokens_ne_nil 1)).mp hs
  have hhead := ht.operand (by decide) hu (hv.breaks hk)
  obtain ⟨w₁, v₁, rfl, hw₁, hv₁⟩ := led_cons.mp hv
  obtain ⟨v₂, v₃, rfl, hv₂, hv₃⟩ := led_append.mp hv₁
  obtain ⟨w₃, v₄, rfl, hw₃, hv₄⟩ := led_cons.mp hv₃
  rw [← operandTokens_zero yes.level (yes.tokens sp)] at hv₂
  rw [← operandTokens_zero no.level (no.tokens sp)] at hv₄
  obtain ⟨w₂, y, rfl, hw₂, hyes⟩ := hy.led_operand (Nat.zero_le 9) hv₂
  obtain ⟨w₄, n, rfl, hw₄, hno⟩ := hn.led_operand (Nat.zero_le 9) hv₄
  obtain ⟨hgap₄, hreadno⟩ := hno k hk
  obtain ⟨hgap₂, hreadyes⟩ := hyes _ (hw₃.breaks (':' :: (w₄ ++ (n ++ k))))
  have hbranches := Reading.branches (gap_before_symbol hw₁.2 rfl) hgap₂ hreadyes
    (gap_before_symbol hw₃.2 rfl) hgap₄ hreadno
  refine Reading.choice hhead ?_
  simpa using hbranches

/-! ### Derivations -/

/-- What a phrase stands for is read from its tokens. -/
def Phrase.Prints (sp : Spelling) : (p : Phrase) → p.Value → Prop
  | level _, e     => Expr.Prints sp e
  | operand _, e   => Expr.Prints sp e
  | branches, q    => Expr.Prints sp q.1 ∧ Expr.Prints sp q.2
  | step i, x      => x.1.tier = i ∧ Expr.Prints sp x.2
  | nextTrailer, x => PrintsTail sp x
  | trailer, x     => PrintsTail sp x
  | series p, as   => ∀ a ∈ as, p.Prints sp a
  | nextItem p, a  => p.Prints sp a
  | pair, q        => PrintsKey sp q.1 ∧ Expr.Prints sp q.2
  | key, l         => PrintsKey sp l

/-- What a form stands for is read from its tokens. -/
def Form.Prints (sp : Spelling) : (f : Form) → f.Value → Prop
  | one p, a      => p.Prints sp a
  | many p, as    => ∀ a ∈ as, p.Prints sp a
  | perhaps p, a? => ∀ a ∈ a?, p.Prints sp a

/-- A series that is left out has no items. -/
theorem Form.Prints.orNothing {p : Phrase} {as : Option (List p.Value)}
    (h : Form.Prints sp (.perhaps (.series p)) as) : ∀ a ∈ Rule.orNothing as, p.Prints sp a := by
  cases as with
  | none => nofun
  | some as => exact h as rfl

/-- Without branches, a choice stands for its test. -/
theorem prints_image_choice {test : Tree (.one (.level (.logic .disj)))}
    {b : Tree (.perhaps .branches)} (ht : Prints sp test.image)
    (hb : Form.Prints sp (.perhaps .branches) b.image) : Prints sp (Tree.choice test b).image := by
  simp only [Tree.image]
  cases hq : b.image with
  | none => exact ht
  | some q =>
      rw [hq] at hb
      obtain ⟨hyes, hno⟩ := hb q rfl
      exact prints_choice ht hyes hno

/-- A number of a settled lexeme is written out. -/
theorem isPrintable_of_settled {t : List Char} (h : settled .number t k) :
    ∃ n, Token.numberLiteral t = .whole n ∧ IsPrintable (.whole n) := h

/-- The digits need not be printed as they were, but they have the same value. -/
theorem prints_number {t : List Char} (h : settled .number t k) :
    Prints sp (.literal (Token.numberLiteral t)) := by
  obtain ⟨n, hn, hprint⟩ := isPrintable_of_settled h
  rw [hn]
  exact prints_literal hprint

/-- So it is with a number that is a key. -/
theorem printsKey_number {t : List Char} (h : settled .number t k) :
    PrintsKey sp (Token.numberLiteral t) := by
  obtain ⟨n, hn, hprint⟩ := isPrintable_of_settled h
  rw [hn]
  exact printsKey_whole hprint

/-- A name of a settled lexeme is read wherever it stands. -/
theorem prints_name {n : List Char} (h : settled .name n k) :
    Prints sp (.var (String.ofList n)) := by
  refine prints_var ?_
  rwa [String.toList_ofList]

/-- So is the name of a member. -/
theorem printsTail_name {n : List Char} (h : settled .name n k) :
    PrintsTail sp (.member (String.ofList n)) := by
  refine printsTail_member ?_
  rwa [String.toList_ofList]

/-- A derivation whose lexemes are settled stands for what is read from its tokens. -/
theorem Tree.prints_image {f : Form} (d : Tree f) (hr : d.Reads settled k) :
    f.Prints sp d.image := by
  induction d generalizing k with
  | expr w e w' ih => exact ih (reads_expr.mp hr).2.1
  | choice test b iht ihb =>
      obtain ⟨ht, hb⟩ := reads_choice.mp hr
      exact prints_image_choice (iht ht) (ihb hb)
  | branches w₁ w₂ yes w₃ w₄ no ihy ihn =>
      obtain ⟨-, -, -, hy, -, -, -, hn⟩ := reads_branches.mp hr
      exact ⟨ihy hy, ihn hn⟩
  | logic c e es ihe ihs =>
      obtain ⟨he, hes⟩ := reads_logic.mp hr
      cases c with
      | disj => exact prints_disjOf (ihe he) (ihs hes)
      | conj => exact prints_conjOf (ihe he) (ihs hes)
  | operand c w t w' e ih => exact ih (reads_operand.mp hr).2.2.2
  | denial t w e ih => exact prints_not (ih (reads_denial.mp hr).2.2)
  | comparison e ih | single e ih => exact ih hr
  | chain i e ss ihe ihs =>
      obtain ⟨he, hss⟩ := reads_chain.mp hr
      exact prints_chainOf (ihe he) (ihs hss)
  | step i w o t w' e ih =>
      obtain ⟨-, ht, -, he⟩ := reads_step.mp hr
      exact ⟨ht, ih he⟩
  | minus w e ih => exact prints_neg (ih (reads_minus.mp hr).2.2)
  | factor a ts iha iht =>
      obtain ⟨ha, hts⟩ := reads_factor.mp hr
      exact prints_factorOf (iha ha) (iht hts)
  | nextTrailer w t ih => exact ih (reads_nextTrailer.mp hr).2
  | call w es w' ih => exact printsTail_call (ih (reads_call.mp hr).2.2.1).orNothing
  | index e ih => exact printsTail_index (ih (reads_index.mp hr).2.1)
  | member w n => exact printsTail_name (reads_member.mp hr).2.2
  | number t => exact prints_number hr.1
  | text t | truth t | null t => exact prints_literal trivial
  | var n => exact prints_name (reads_var.mp hr)
  | inner e ih => exact ih (reads_inner.mp hr).2.1
  | list w es w' ih => exact prints_list (ih (reads_list.mp hr).2.2.1).orNothing
  | dict w ps w' ih => exact prints_dict (ih (reads_dict.mp hr).2.2.1).orNothing
  | series p hp a as iha ihs =>
      obtain ⟨ha, has⟩ := reads_series.mp hr
      exact List.forall_mem_cons.mpr ⟨iha ha, ihs has⟩
  | nextItem p a ih => exact ih (reads_nextItem.mp hr).2
  | pair w l w' e ihk ihe =>
      obtain ⟨-, hl, -, -, he⟩ := reads_pair.mp hr
      exact ⟨ihk hl, ihe he⟩
  | textKey t | nameKey n => exact printsKey_text _
  | numberKey t => exact printsKey_number hr.1
  | absent => exact fun _ ha => absurd ha (Option.not_mem_none _)
  | nil => exact List.forall_mem_nil _
  | present p a ih => exact fun _ hb => Option.mem_some.mp hb ▸ ih hr
  | cons p a as iha ihs =>
      obtain ⟨ha, hs⟩ := reads_cons.mp hr
      exact List.forall_mem_cons.mpr ⟨iha ha, ihs hs⟩

/-- **Round trip of the printer and the parser.**  The tokens of a compiled expression without
floating-point numbers, with any white space between them, are compiled to that expression. -/
theorem compile_tokens {sp : Spelling} {t s : String} {e : Expr} (ht : compile t = .ok e)
    (hfloat : ¬e.HasFloat) (hs : Spaced (e.tokens sp) s.toList) : compile s = .ok e := by
  obtain ⟨d, rfl, hr⟩ := reads_settled ht hfloat
  have hprints : Prints sp d.image := d.prints_image hr
  exact compileChars_of_reading_nth (hprints _ [] hs nofun) (readable_of_compileChars ht)

theorem compile_tokens_not_in :
    compile "x\u2003not\u2003in\u2003(\u2003a\u2003?\u20031\u2003:\u2003\"\\\"\"\u2003)" =
      .ok (.chain (.var "x")
        [(.notIn, .choice (.var "a") (.literal (.whole 1)) (.literal (.text "\"")))]) := by
  have ht : compile "x not\nin(a?1:'\"')" = .ok (.chain (.var "x")
      [(.notIn, .choice (.var "a") (.literal (.whole 1)) (.literal (.text "\"")))]) := by cbv
  refine @compile_tokens .words _ _ _ ht ?_ (spaced_intercalate (w := ['\u2003']) ?_ _)
  · rintro ⟨x, hx⟩
    simp [marks, marksOfSteps, marksOfStep, Literal.mark] at hx
  · exact ⟨by decide, by decide +kernel⟩

end Trellis.Expr
