import Trellis.Proofs.Syntax.Literals
import Trellis.Proofs.Syntax.Marks

/-!
# Proofs — Syntax — Printer

The tokens of an expression, with parentheses only where an operand is looser than its place allows.
Levels are counted from the loosest:

    choice 0   or 1   and 2   not 3   comparison 4   sum 5   product 6   minus 7   factor 8   atom 9

* `Expr.tokens`: the tokens; `Spelling` says how those are written that have several forms.
* `Spaced ts s`: the text `s` is made of the tokens `ts` with white space between any two of them.
* `Led ts s`: the same with white space before the first token as well, which is how the tokens of
  a part stand behind others (`spaced_append`, `led_append`).
-/

namespace Trellis

/-- The level of an operator. -/
def Operator.tier : Operator → Expr.Tier
  | add | sub       => .sum
  | mul | div | mod => .product
  | _               => .comparison

namespace Expr

open Trellis.Text (isSpace)

/-- How tokens are written that have several forms. -/
structure Spelling where
  yes : String
  no : String
  null : String
  denial : String
  conj : String
  disj : String
  yes_mem : yes ∈ ["true", "True"]
  no_mem : no ∈ ["false", "False"]
  null_mem : null ∈ ["null", "None", "undefined"]
  denial_mem : denial ∈ ["not", "!"]
  conj_mem : conj ∈ ["and", "&&"]
  disj_mem : disj ∈ ["or", "||"]

/-- All in lower-case words. -/
def Spelling.words : Spelling where
  yes := "true"
  no := "false"
  null := "null"
  denial := "not"
  conj := "and"
  disj := "or"
  yes_mem := List.mem_cons_self
  no_mem := List.mem_cons_self
  null_mem := List.mem_cons_self
  denial_mem := List.mem_cons_self
  conj_mem := List.mem_cons_self
  disj_mem := List.mem_cons_self

/-! ### Tokens -/

/-- The number of the level of operators. -/
def Tier.number : Tier → Nat
  | comparison => 4
  | sum        => 5
  | product    => 6

/-- The number of the level that an expression is written at. -/
def level : Expr → Nat
  | choice _ _ _        => 0
  | disj _              => 1
  | conj _              => 2
  | not _               => 3
  | chain _ ((o, _) :: _) => o.tier.number
  | neg _               => 7
  | factor _ _          => 8
  | _                   => 9

/-- The tokens of an operator; "not in" is two words. -/
def operatorTokens : Operator → List (List Char)
  | .notIn => ["not".toList, "in".toList]
  | o      => [o.symbol.toList]

/-- A literal as it is written.  There is no such text for floating-point numbers and for literals
that cannot be read. -/
def literalToken (sp : Spelling) : Literal → List Char
  | .null                    => sp.null.toList
  | .truth b                 => if b then sp.yes.toList else sp.no.toList
  | .whole n                 => Nat.toDigits 10 n
  | .text s                  => Token.quote s
  | .unreadable | .floating _ => []

/-- The tokens of an operand of level `m` where level `n` is due. -/
def operandTokens (n m : Nat) (ts : List (List Char)) : List (List Char) :=
  if m < n then ['('] :: (ts ++ [[')']]) else ts

/-- Tokens of items with commas between them. -/
def commas {α : Type} (tk : α → List (List Char)) : List α → List (List Char)
  | []      => []
  | a :: as => tk a ++ as.flatMap fun a => [','] :: tk a

mutual

/-- The tokens of an expression. -/
def tokens (sp : Spelling) : Expr → List (List Char)
  | literal l       => [literalToken sp l]
  | var n           => [n.toList]
  | factor e ts     => operandTokens 9 e.level (e.tokens sp) ++ tokensOfTails sp ts
  | chain e ss      =>
    operandTokens ((chain e ss).level + 1) e.level (e.tokens sp) ++
      tokensOfSteps sp ((chain e ss).level + 1) ss
  | neg e           => ['-'] :: operandTokens 7 e.level (e.tokens sp)
  | not e           => sp.denial.toList :: operandTokens 3 e.level (e.tokens sp)
  | conj es         => tokensBetween sp 3 sp.conj.toList es
  | disj es         => tokensBetween sp 2 sp.disj.toList es
  | choice test y n =>
    operandTokens 1 test.level (test.tokens sp) ++ ['?'] :: y.tokens sp ++ [':'] :: n.tokens sp
  | list es         => ['['] :: tokensBetween sp 0 [','] es ++ [[']']]
  | dict ps         => ['\x7b'] :: tokensOfPairs sp ps ++ [['\x7d']]
termination_by structural e => e

/-- The tokens of operands with a separator between them. -/
def tokensBetween (sp : Spelling) (n : Nat) (sep : List Char) : List Expr → List (List Char)
  | []      => []
  | e :: es => operandTokens n e.level (e.tokens sp) ++ tokensAfter sp n sep es
termination_by structural es => es

/-- The tokens of operands with a separator before each. -/
def tokensAfter (sp : Spelling) (n : Nat) (sep : List Char) : List Expr → List (List Char)
  | []      => []
  | e :: es => sep :: operandTokens n e.level (e.tokens sp) ++ tokensAfter sp n sep es
termination_by structural es => es

/-- The tokens of operators with their right operands. -/
def tokensOfSteps (sp : Spelling) (n : Nat) : List (Operator × Expr) → List (List Char)
  | []      => []
  | s :: ss => tokensOfStep sp n s ++ tokensOfSteps sp n ss
termination_by structural ss => ss

/-- The tokens of an operator with its right operand. -/
def tokensOfStep (sp : Spelling) (n : Nat) : Operator × Expr → List (List Char)
  | (o, e) => operatorTokens o ++ operandTokens n e.level (e.tokens sp)
termination_by structural s => s

/-- The tokens of pairs with commas between them. -/
def tokensOfPairs (sp : Spelling) : List (Literal × Expr) → List (List Char)
  | []      => []
  | p :: ps => tokensOfPair sp p ++ tokensAfterPairs sp ps
termination_by structural ps => ps

/-- The tokens of pairs with a comma before each. -/
def tokensAfterPairs (sp : Spelling) : List (Literal × Expr) → List (List Char)
  | []      => []
  | p :: ps => [','] :: tokensOfPair sp p ++ tokensAfterPairs sp ps
termination_by structural ps => ps

/-- The tokens of a pair. -/
def tokensOfPair (sp : Spelling) : Literal × Expr → List (List Char)
  | (k, e) => literalToken sp k :: [':'] :: e.tokens sp
termination_by structural p => p

/-- The tokens of calls, indices and members. -/
def tokensOfTails (sp : Spelling) : List Tail → List (List Char)
  | []      => []
  | t :: ts => tokensOfTail sp t ++ tokensOfTails sp ts
termination_by structural ts => ts

/-- The tokens of a call, an index or a member. -/
def tokensOfTail (sp : Spelling) : Tail → List (List Char)
  | .call es  => ['('] :: tokensBetween sp 0 [','] es ++ [[')']]
  | .index e  => ['['] :: e.tokens sp ++ [[']']]
  | .member n => [['.'], n.toList]
termination_by structural t => t

end

section Tokens

variable {sp : Spelling} {n : Nat}

/-- The tokens of items behind separators are those of the items, each behind one. -/
theorem tokensAfter_eq (sep : List Char) (es : List Expr) :
    tokensAfter sp n sep es =
      es.flatMap fun e => sep :: operandTokens n e.level (e.tokens sp) := by
  induction es with
  | nil => rfl
  | cons e es ih => rw [tokensAfter, ih, List.flatMap_cons]

/-- The tokens of operators are those of each with its operand. -/
theorem tokensOfSteps_eq (ss : List (Operator × Expr)) :
    tokensOfSteps sp n ss = ss.flatMap (tokensOfStep sp n) := by
  induction ss with
  | nil => rfl
  | cons s ss ih => rw [tokensOfSteps, ih, List.flatMap_cons]

theorem tokensAfterPairs_eq (ps : List (Literal × Expr)) :
    tokensAfterPairs sp ps = ps.flatMap fun p => [','] :: tokensOfPair sp p := by
  induction ps with
  | nil => rfl
  | cons p ps ih => rw [tokensAfterPairs, ih, List.flatMap_cons]

/-- At the lowest level no operand needs parentheses. -/
@[simp] theorem operandTokens_zero (m : Nat) (ts : List (List Char)) :
    operandTokens 0 m ts = ts := if_neg (Nat.not_lt_zero m)

/-- Items between commas are printed without parentheses. -/
theorem tokensBetween_eq (es : List Expr) :
    tokensBetween sp 0 [','] es = commas (tokens sp) es := by
  cases es with
  | nil => rfl
  | cons e es =>
      rw [tokensBetween, tokensAfter_eq, commas]
      simp only [operandTokens_zero]

/-- So are pairs. -/
theorem tokensOfPairs_eq (ps : List (Literal × Expr)) :
    tokensOfPairs sp ps = commas (tokensOfPair sp) ps := by
  cases ps with
  | nil => rfl
  | cons p ps => rw [tokensOfPairs, tokensAfterPairs_eq, commas]

/-- The tokens of calls, indices and members are those of each in turn. -/
theorem tokensOfTails_eq (ts : List Tail) :
    tokensOfTails sp ts = ts.flatMap (tokensOfTail sp) := by
  induction ts with
  | nil => rfl
  | cons t ts ih => rw [tokensOfTails, ih, List.flatMap_cons]

end Tokens

/-! ### White space between tokens -/

/-- White space that is not empty. -/
def Gap (w : List Char) : Prop := w ≠ [] ∧ ∀ c ∈ w, isSpace c = true

/-- Tokens in a row, with white space before each. -/
inductive Led : List (List Char) → List Char → Prop where
  | nil : Led [] []
  | cons {w t s : List Char} {ts : List (List Char)} (hw : Gap w) (h : Led ts s) :
      Led (t :: ts) (w ++ (t ++ s))

/-- Tokens in a row, with white space between any two. -/
def Spaced : List (List Char) → List Char → Prop
  | [], s      => s = []
  | t :: ts, s => ∃ v, s = t ++ v ∧ Led ts v

variable {t s v : List Char} {ts ts' : List (List Char)}

/-- No tokens are written as nothing. -/
theorem led_nil : Led [] s ↔ s = [] := by
  constructor
  · rintro ⟨⟩
    rfl
  · rintro rfl
    exact .nil

theorem spaced_singleton : Spaced [t] s ↔ s = t := by
  simp [Spaced, led_nil]

/-- Tokens that are written behind white space are written so in two parts. -/
theorem led_append : Led (ts ++ ts') s ↔ ∃ u v, s = u ++ v ∧ Led ts u ∧ Led ts' v := by
  induction ts generalizing s with
  | nil =>
      constructor
      · exact fun h => ⟨[], s, rfl, .nil, h⟩
      · rintro ⟨_, v, rfl, ⟨⟩, h⟩
        exact h
  | cons t ts ih =>
      constructor
      · rintro (_ | ⟨hw, h⟩)
        obtain ⟨u, v, rfl, hu, hv⟩ := ih.mp h
        exact ⟨_, v, by simp, .cons hw hu, hv⟩
      · rintro ⟨_, v, rfl, _ | @⟨w, _, u, _, hw, hu⟩, hv⟩
        rw [List.append_assoc, List.append_assoc]
        exact .cons hw (ih.mpr ⟨u, v, rfl, hu, hv⟩)

/-- White space, and then the tokens with white space between them. -/
theorem led_iff (hts : ts ≠ []) : Led ts s ↔ ∃ w u, s = w ++ u ∧ Gap w ∧ Spaced ts u := by
  cases ts with
  | nil => exact absurd rfl hts
  | cons t ts =>
      constructor
      · rintro (_ | ⟨hw, h⟩)
        exact ⟨_, _, rfl, hw, _, rfl, h⟩
      · rintro ⟨w, _, rfl, hw, v, rfl, h⟩
        exact .cons hw h

/-- The first token stands behind white space, and so do the others. -/
theorem led_cons : Led (t :: ts) s ↔ ∃ w v, s = w ++ (t ++ v) ∧ Gap w ∧ Led ts v := by
  constructor
  · rintro (_ | ⟨hw, h⟩)
    exact ⟨_, _, rfl, hw, h⟩
  · rintro ⟨w, v, rfl, hw, h⟩
    exact .cons hw h

theorem led_singleton : Led [t] s ↔ ∃ w, s = w ++ t ∧ Gap w := by
  rw [led_iff (List.cons_ne_nil t [])]
  constructor
  · rintro ⟨w, u, rfl, hw, hu⟩
    obtain rfl := spaced_singleton.mp hu
    exact ⟨w, rfl, hw⟩
  · rintro ⟨w, rfl, hw⟩
    exact ⟨w, t, rfl, hw, spaced_singleton.mpr rfl⟩

/-- Only the first token of all stands without white space in front. -/
theorem spaced_append (hts : ts ≠ []) :
    Spaced (ts ++ ts') s ↔ ∃ u v, s = u ++ v ∧ Spaced ts u ∧ Led ts' v := by
  cases ts with
  | nil => exact absurd rfl hts
  | cons t ts =>
      simp only [List.cons_append, Spaced, led_append]
      constructor
      · rintro ⟨_, rfl, u, v, rfl, hu, hv⟩
        exact ⟨t ++ u, v, (List.append_assoc _ _ _).symm, ⟨u, rfl, hu⟩, hv⟩
      · rintro ⟨_, v, rfl, ⟨u, rfl, hu⟩, hv⟩
        exact ⟨u ++ v, List.append_assoc _ _ _, u, v, rfl, hu, hv⟩

/-- The same white space between any two tokens. -/
theorem spaced_intercalate {w : List Char} (hw : Gap w) (ts : List (List Char)) :
    Spaced ts (w.intercalate ts) := by
  cases ts with
  | nil => rfl
  | cons t ts =>
      induction ts generalizing t with
      | nil => exact spaced_singleton.mpr List.intercalate_singleton
      | cons t' ts ih =>
          obtain ⟨v, hv, hled⟩ := ih t'
          rw [List.intercalate_cons_cons, hv]
          exact ⟨w ++ (t' ++ v), List.append_assoc _ _ _, .cons hw hled⟩

end Expr
end Trellis
