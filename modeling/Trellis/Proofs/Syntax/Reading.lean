import Trellis.Proofs.Syntax.Compiled

/-!
# Proofs — Syntax — Reading

`Reading f s a k`: the text `s` is derived from `f`, stands for `a` and is what the matchers take in
front of `k`.  The rules of the grammar are rules of introduction for it; what is read at a level is
read at every looser one (`Reading.loosen`), and what is read as a whole is compiled
(`compileChars_of_reading`).

White space is taken as it should be in front of what is `Solid` and of what `Closes` a part.
-/

namespace Trellis.Expr

open Trellis.Text (isSpace)

/-- The text `s` is read as `a` in front of `k`. -/
def Reading (f : Form) (s : List Char) (a : f.Value) (k : List Char) : Prop :=
  ∃ d : Tree f, d.spelled = s ∧ d.image = a ∧ d.Reads greedy k

/-- The text `s` is read as an expression of a level. -/
abbrev Reading.At (l : Level) (s : List Char) (e : Expr) (k : List Char) : Prop :=
  Reading (.one (.level l)) s e k

/-! ### White space -/

/-- The text starts with a character other than white space. -/
def Solid (s : List Char) : Prop := ∃ c t, s = c :: t ∧ isSpace c = false

/-- The text is empty or starts with a break other than white space. -/
def Closes (u : List Char) : Prop := Breaks u ∧ ∀ c ∈ u.head?, isSpace c = false

section Space

variable {s t w u k : List Char}

/-- White space breaks, and so does what stands behind none. -/
theorem breaks_of_spaces (hu : ∀ c ∈ u, isSpace c = true) (hk : Breaks k) : Breaks (u ++ k) := by
  cases u with
  | nil => exact hk
  | cons a u =>
      rintro c ⟨⟩
      simp [isBreak, hu a List.mem_cons_self]

theorem closes_nil : Closes [] := ⟨nofun, nofun⟩

/-- A bracket, a comma or a colon closes an expression. -/
theorem closes_cons {c : Char} (hc : isBreak c = true) (hs : isSpace c = false) :
    Closes (c :: u) := by
  constructor
  · rintro a ⟨⟩
    exact hc
  · rintro a ⟨⟩
    exact hs

theorem solid_cons {c : Char} (hc : isSpace c = false) : Solid (c :: t) := ⟨c, t, rfl, hc⟩

/-- Lexemes other than white space and symbols are solid. -/
theorem solid_of_greedy {x : Lexeme} {r : List Char} (hx : x.isToken = true) (h : greedy x t r) :
    Solid t := by
  obtain ⟨c, t, rfl, hc⟩ := greedy_starts (by rintro rfl; cases hx) h
  refine solid_cons (Bool.eq_false_iff.mpr fun hs => ?_)
  have := Lexeme.starts_not_blank hx hc
  rw [Text.isBlank_of_isSpace hs] at this
  cases this

/-- White space in front of something solid is taken whole. -/
theorem gap_before (hw : ∀ c ∈ w, isSpace c = true) (hs : Solid s) (k : List Char) :
    greedy .space w (s ++ k) := by
  obtain ⟨c, t, rfl, hc⟩ := hs
  refine greedy_space.mpr ⟨hw, ?_⟩
  rintro a ⟨⟩
  exact hc

/-- So it is in front of a symbol. -/
theorem gap_before_symbol {c : Char} (hw : ∀ c ∈ w, isSpace c = true) (hc : isSpace c = false) :
    greedy .space w (c :: k) :=
  gap_before (s := [c]) hw (solid_cons hc) k

end Space

namespace Reading

variable {p : Phrase} {a : p.Value} {as : List p.Value} {e e' : Expr} {s t u v w k : List Char}

/-! ### Repeated and optional phrases -/

theorem nil (p : Phrase) (k : List Char) : Reading (.many p) [] [] k :=
  ⟨.nil p, rfl, rfl, trivial⟩

/-- One more part is read in front of the others, which it must not run into. -/
theorem cons (h : Reading (.one p) s a (u ++ k)) (h' : Reading (.many p) u as k) :
    Reading (.many p) (s ++ u) (a :: as) k := by
  obtain ⟨d, rfl, rfl, hr⟩ := h
  obtain ⟨ds, rfl, rfl, hr'⟩ := h'
  exact ⟨.cons p d ds, Tree.spelled_cons d ds, rfl, Tree.reads_cons.mpr ⟨hr, hr'⟩⟩

theorem absent (p : Phrase) (k : List Char) : Reading (.perhaps p) [] none k :=
  ⟨.absent p, rfl, rfl, trivial⟩

/-- A part that may be absent is read if it is there. -/
theorem present (h : Reading (.one p) s a k) : Reading (.perhaps p) s (some a) k := by
  obtain ⟨d, rfl, rfl, hr⟩ := h
  exact ⟨.present p d, rfl, rfl, hr⟩

/-- An item is read with the comma in front of it. -/
theorem nextItem (h : Reading (.one p) s a k) :
    Reading (.one (.nextItem p)) (',' :: s) a k := by
  obtain ⟨d, rfl, rfl, hr⟩ := h
  exact ⟨.nextItem p d, by simp, rfl,
    by simpa using hr⟩

/-- The first item is read in front of the others. -/
theorem series (hp : p.isItem = true) (h : Reading (.one p) s a (u ++ k))
    (h' : Reading (.many (.nextItem p)) u as k) :
    Reading (.one (.series p)) (s ++ u) (a :: as) k := by
  obtain ⟨d, rfl, rfl, hr⟩ := h
  obtain ⟨ds, rfl, rfl, hr'⟩ := h'
  exact ⟨.series p hp d ds, by simp, rfl,
    by simpa using ⟨hr, hr'⟩⟩

/-! ### Atoms -/

/-- A number is read as an atom. -/
theorem number (h : greedy .number t k) : At .atom t (.literal (Token.numberLiteral t)) k :=
  ⟨.number t, by simp, rfl, ⟨h, trivial⟩⟩

/-- So is a text between quotes. -/
theorem text (h : greedy .text t k) : At .atom t (.literal (.text (Token.unquote t))) k :=
  ⟨.text t, by simp, rfl, ⟨h, trivial⟩⟩

theorem truth (h : greedy .truth t k) :
    At .atom t (.literal (.truth (t = "true".toList || t = "True".toList))) k :=
  ⟨.truth t, by simp, rfl, ⟨h, trivial⟩⟩

theorem null (h : greedy .null t k) : At .atom t (.literal .null) k :=
  ⟨.null t, by simp, rfl, ⟨h, trivial⟩⟩

/-- A name is read as an atom. -/
theorem var (h : greedy .name t k) : At .atom t (.var (String.ofList t)) k :=
  ⟨.var t, by simp, rfl, ⟨h, trivial⟩⟩

/-- A text is read as a key. -/
theorem textKey (h : greedy .text t k) :
    Reading (.one .key) t (.text (Token.unquote t)) k :=
  ⟨.textKey t, by simp, rfl, ⟨h, trivial⟩⟩

theorem numberKey (h : greedy .number t k) :
    Reading (.one .key) t (Token.numberLiteral t) k :=
  ⟨.numberKey t, by simp, rfl, ⟨h, trivial⟩⟩

theorem nameKey (h : greedy .name t k) :
    Reading (.one .key) t (.text (String.ofList t)) k :=
  ⟨.nameKey t, by simp, rfl, ⟨h, trivial⟩⟩

/-- What stands in parentheses is read as an atom. -/
theorem inner (h : At .expr s e (')' :: k)) : At .atom ('(' :: (s ++ [')'])) e k := by
  obtain ⟨d, rfl, rfl, hr⟩ := h
  exact ⟨.inner d, by simp, rfl,
    by simpa using hr⟩

/-- The items in brackets are read as a list. -/
theorem list {es : Option (List Expr)} (hw : greedy .space w (s ++ (v ++ ']' :: k)))
    (h : Reading (.perhaps (.series (.level .expr))) s es (v ++ ']' :: k))
    (hv : greedy .space v (']' :: k)) :
    At .atom ('[' :: (w ++ (s ++ (v ++ [']'])))) (.list (Rule.orNothing es)) k := by
  obtain ⟨d, rfl, rfl, hr⟩ := h
  exact ⟨.list w d v, by simp, rfl,
    by simpa using ⟨hw, hr, hv⟩⟩

/-- The pairs in braces are read as a dictionary. -/
theorem dict {ps : Option (List (Literal × Expr))}
    (hw : greedy .space w (s ++ (v ++ '\x7d' :: k)))
    (h : Reading (.perhaps (.series .pair)) s ps (v ++ '\x7d' :: k))
    (hv : greedy .space v ('\x7d' :: k)) :
    At .atom ('\x7b' :: (w ++ (s ++ (v ++ ['\x7d'])))) (.dict (Rule.orNothing ps)) k := by
  obtain ⟨d, rfl, rfl, hr⟩ := h
  exact ⟨.dict w d v, by simp, rfl,
    by simpa using ⟨hw, hr, hv⟩⟩

/-- A key and a value with a colon between them are read as a pair. -/
theorem pair {l : Literal} (hw : greedy .space w (t ++ (v ++ ':' :: (s ++ k))))
    (hkey : Reading (.one .key) t l (v ++ ':' :: (s ++ k)))
    (hv : greedy .space v (':' :: (s ++ k))) (h : At .expr s e k) :
    Reading (.one .pair) (w ++ (t ++ (v ++ ':' :: s))) (l, e) k := by
  obtain ⟨dk, rfl, rfl, hkr⟩ := hkey
  obtain ⟨d, rfl, rfl, hr⟩ := h
  exact ⟨.pair w dk v d, by simp, rfl,
    by simpa using ⟨hw, hkr, hv, hr⟩⟩

/-! ### Calls, indices and members -/

/-- The arguments in parentheses are read as a call. -/
theorem call {es : Option (List Expr)} (hw : greedy .space w (s ++ (v ++ ')' :: k)))
    (h : Reading (.perhaps (.series (.level .expr))) s es (v ++ ')' :: k))
    (hv : greedy .space v (')' :: k)) :
    Reading (.one .trailer) ('(' :: (w ++ (s ++ (v ++ [')'])))) (.call (Rule.orNothing es)) k := by
  obtain ⟨d, rfl, rfl, hr⟩ := h
  exact ⟨.call w d v, by simp, rfl,
    by simpa using ⟨hw, hr, hv⟩⟩

/-- An expression in brackets is read as an index. -/
theorem index (h : At .expr s e (']' :: k)) :
    Reading (.one .trailer) ('[' :: (s ++ [']'])) (.index e) k := by
  obtain ⟨d, rfl, rfl, hr⟩ := h
  exact ⟨.index d, by simp, rfl,
    by simpa using hr⟩

/-- A name behind a point is read as a member. -/
theorem member (hw : greedy .space w (t ++ k)) (ht : greedy .name t k) :
    Reading (.one .trailer) ('.' :: (w ++ t)) (.member (String.ofList t)) k :=
  ⟨.member w t, by simp, rfl,
    by simpa using ⟨hw, ht⟩⟩

/-- White space may stand in front of a call, an index or a member. -/
theorem nextTrailer {x : Tail} (hw : greedy .space w (s ++ k))
    (h : Reading (.one .trailer) s x k) : Reading (.one .nextTrailer) (w ++ s) x k := by
  obtain ⟨d, rfl, rfl, hr⟩ := h
  exact ⟨.nextTrailer w d, by simp, rfl,
    by simpa using ⟨hw, hr⟩⟩

/-- An atom is read with what stands behind it. -/
theorem factor {ts : List Tail} (h : At .atom s e (u ++ k))
    (h' : Reading (.many .nextTrailer) u ts k) : At .factor (s ++ u) (factorOf e ts) k := by
  obtain ⟨d, rfl, rfl, hr⟩ := h
  obtain ⟨ds, rfl, rfl, hr'⟩ := h'
  exact ⟨.factor d ds, by simp, rfl,
    by simpa using ⟨hr, hr'⟩⟩

/-! ### Operators -/

/-- A minus sign is read with its operand. -/
theorem minus (hw : greedy .space w (s ++ k)) (h : At .unary s e k) :
    At .unary ('-' :: (w ++ s)) (.neg e) k := by
  obtain ⟨d, rfl, rfl, hr⟩ := h
  exact ⟨.minus w d, by simp, rfl,
    by simpa using ⟨hw, hr⟩⟩

/-- An operator is read with its right operand. -/
theorem step {i : Tier} {o : Operator} (hw : greedy .space w (t ++ (v ++ (s ++ k))))
    (ht : greedy (.sign i o) t (v ++ (s ++ k))) (hv : greedy .space v (s ++ k))
    (h : At i.operand s e k) : Reading (.one (.step i)) (w ++ (t ++ (v ++ s))) (o, e) k := by
  obtain ⟨d, rfl, rfl, hr⟩ := h
  exact ⟨.step i w o t v d, by simp, rfl,
    by simpa using ⟨hw, ht, hv, hr⟩⟩

/-- Operands and operators are read from left to right. -/
theorem chain {i : Tier} {ss : List (Operator × Expr)} (h : At i.operand s e (u ++ k))
    (h' : Reading (.many (.step i)) u ss k) : At (.chain i) (s ++ u) (chainOf e ss) k := by
  obtain ⟨d, rfl, rfl, hr⟩ := h
  obtain ⟨ds, rfl, rfl, hr'⟩ := h'
  exact ⟨.chain i d ds, by simp, rfl,
    by simpa using ⟨hr, hr'⟩⟩

/-- A denial is read with what it denies. -/
theorem denial (ht : greedy .denial t (w ++ (s ++ k))) (hw : greedy .space w (s ++ k))
    (h : At .negation s e k) : At .negation (t ++ (w ++ s)) (.not e) k := by
  obtain ⟨d, rfl, rfl, hr⟩ := h
  exact ⟨.denial t w d, by simp, rfl,
    by simpa using ⟨ht, hw, hr⟩⟩

/-- A connective is read with its right operand. -/
theorem operand {c : Connective} (hw : greedy .space w (t ++ (v ++ (s ++ k))))
    (ht : greedy (.connective c) t (v ++ (s ++ k))) (hv : greedy .space v (s ++ k))
    (h : At c.operand s e k) : Reading (.one (.operand c)) (w ++ (t ++ (v ++ s))) e k := by
  obtain ⟨d, rfl, rfl, hr⟩ := h
  exact ⟨.operand c w t v d, by simp, rfl,
    by simpa using ⟨hw, ht, hv, hr⟩⟩

/-- Operands with `and` between them are read together. -/
theorem conjunction {es : List Expr} (h : At .negation s e (u ++ k))
    (h' : Reading (.many (.operand .conj)) u es k) :
    At (.logic .conj) (s ++ u) (conjOf e es) k := by
  obtain ⟨d, rfl, rfl, hr⟩ := h
  obtain ⟨ds, rfl, rfl, hr'⟩ := h'
  exact ⟨.logic .conj d ds, Tree.spelled_logic .conj d ds, rfl, Tree.reads_logic.mpr ⟨hr, hr'⟩⟩

/-- Operands with `or` between them are read together. -/
theorem disjunction {es : List Expr} (h : At (.logic .conj) s e (u ++ k))
    (h' : Reading (.many (.operand .disj)) u es k) :
    At (.logic .disj) (s ++ u) (disjOf e es) k := by
  obtain ⟨d, rfl, rfl, hr⟩ := h
  obtain ⟨ds, rfl, rfl, hr'⟩ := h'
  exact ⟨.logic .disj d ds, Tree.spelled_logic .disj d ds, rfl, Tree.reads_logic.mpr ⟨hr, hr'⟩⟩

/-- Two branches are read with their marks. -/
theorem branches {yes no : Expr} {w₁ w₂ w₃ w₄ y n : List Char}
    (hw₁ : greedy .space w₁ ('?' :: (w₂ ++ (y ++ (w₃ ++ ':' :: (w₄ ++ (n ++ k)))))))
    (hw₂ : greedy .space w₂ (y ++ (w₃ ++ ':' :: (w₄ ++ (n ++ k)))))
    (hy : At .choice y yes (w₃ ++ ':' :: (w₄ ++ (n ++ k))))
    (hw₃ : greedy .space w₃ (':' :: (w₄ ++ (n ++ k)))) (hw₄ : greedy .space w₄ (n ++ k))
    (hn : At .choice n no k) :
    Reading (.one .branches) (w₁ ++ '?' :: (w₂ ++ (y ++ (w₃ ++ ':' :: (w₄ ++ n))))) (yes, no) k := by
  obtain ⟨dy, rfl, rfl, hry⟩ := hy
  obtain ⟨dn, rfl, rfl, hrn⟩ := hn
  exact ⟨.branches w₁ w₂ dy w₃ w₄ dn, by simp, rfl,
    by simpa using ⟨hw₁, hw₂, hry, hw₃, hw₄, hrn⟩⟩

/-- A test is read with its branches. -/
theorem choice {yes no : Expr} (h : At (.logic .disj) s e (u ++ k))
    (h' : Reading (.one .branches) u (yes, no) k) : At .choice (s ++ u) (.choice e yes no) k := by
  obtain ⟨d, rfl, rfl, hr⟩ := h
  obtain ⟨b, rfl, hb, hr'⟩ := h'
  refine ⟨.choice d (.present _ b), by simp, ?_, ?_⟩
  · simp only [Tree.image, hb]
  · exact Tree.reads_choice.mpr ⟨hr, hr'⟩

/-- An expression is read with the white space around it. -/
theorem expr (hw : greedy .space w (s ++ (v ++ k))) (h : At .choice s e (v ++ k))
    (hv : greedy .space v k) : At .expr (w ++ (s ++ v)) e k := by
  obtain ⟨d, rfl, rfl, hr⟩ := h
  exact ⟨.expr w d v, by simp, rfl,
    by simpa using ⟨hw, hr, hv⟩⟩

/-! ### Looser levels -/

end Reading

/-- The levels without white space around them, counted from the loosest. -/
def Level.nth : Nat → Level
  | 0 => .choice
  | 1 => .logic .disj
  | 2 => .logic .conj
  | 3 => .negation
  | 4 => .chain .comparison
  | 5 => .chain .sum
  | 6 => .chain .product
  | 7 => .unary
  | 8 => .factor
  | _ => .atom

namespace Reading

variable {e : Expr} {s k : List Char}

/-- A test without branches is read as itself. -/
theorem bare (h : At (.logic .disj) s e k) : At .choice s e k := by
  obtain ⟨d, rfl, rfl, hr⟩ := h
  exact ⟨.choice d (.absent _), by simp, rfl,
    by simpa using hr⟩

/-- At the end of a text nothing follows. -/
theorem alone {f : Form} {a : f.Value} (h : Reading f (s ++ []) a k) : Reading f s a k := by
  rwa [List.append_nil] at h

/-- What is read at a level is read at the next looser one. -/
theorem looser {n : Nat} (h : At (.nth (n + 1)) s e k) : At (.nth n) s e k := by
  match n, h with
  | 0, h => exact bare h
  | 1, h => exact alone (disjunction (u := []) h (nil _ k))
  | 2, h => exact alone (conjunction (u := []) h (nil _ k))
  | 3, ⟨d, hs, hd, hr⟩ => exact ⟨.comparison d, hs, hd, hr⟩
  | 4, h => exact alone (chain (i := .comparison) (u := []) h (nil _ k))
  | 5, h => exact alone (chain (i := .sum) (u := []) h (nil _ k))
  | 6, h => exact alone (chain (i := .product) (u := []) h (nil _ k))
  | 7, ⟨d, hs, hd, hr⟩ => exact ⟨.single d, hs, hd, hr⟩
  | 8, h => exact alone (factor (u := []) h (nil _ k))
  | _ + 9, h => exact h

/-- What is read at a level is read at every looser one. -/
theorem loosen {m n : Nat} (hmn : m ≤ n) (h : At (.nth n) s e k) : At (.nth m) s e k := by
  induction hmn with
  | refl => exact h
  | step _ ih => exact ih h.looser

/-- What is read without white space around it starts with none. -/
theorem solid {n : Nat} (h : At (.nth n) s e k) : Solid s := by
  obtain ⟨d, rfl, -, hr⟩ := h.loosen (Nat.zero_le n)
  exact d.head_not_space hr

/-- A key starts with no white space. -/
theorem solid_key {l : Literal} (h : Reading (.one .key) s l k) : Solid s := by
  obtain ⟨d, rfl, -, hr⟩ := h
  cases d with
  | textKey t | numberKey t | nameKey t =>
      show Solid (t ++ [])
      rw [List.append_nil]
      exact solid_of_greedy rfl hr.1

end Reading

/-- What is read as a whole is compiled, if its literals can be read. -/
theorem compileChars_of_reading {s : List Char} {e : Expr} (h : Reading.At .expr s e [])
    (hu : e.hasUnreadable = false) : compileChars s = .ok e := by
  obtain ⟨d, hs, rfl, hr⟩ := h
  exact compileChars_of_derivation hs hr hu

end Trellis.Expr
