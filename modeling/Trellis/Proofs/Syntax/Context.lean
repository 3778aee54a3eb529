import Trellis.Proofs.Syntax.Reading
import Trellis.Proofs.Text.Cutting
import Trellis.Expr.Scope

/-!
# Proofs — Syntax — Context

What is compiled alone is compiled alike within brackets, as an argument, as an item and as the
value of a key (`compile_in_context`).

* `Tree.endsInToken`: an expression without white space around it ends in a token, so that all its
  lexemes stay as they are when a break is put behind (`greedy_allows_append`).
* `Standing t e`: the text `t`, apart from white space around it, is read as `e` in front of every
  break.  Every text that is compiled stands so.
-/

namespace Trellis.Expr

open Trellis.Text (isSpace)

/-! ### Last lexemes -/

/-- The last lexeme of a writing is not white space. -/
def Writing.EndsInToken (ls : Writing) : Prop := ∃ ls' x t, ls = ls' ++ [(x, t)] ∧ x ≠ .space

namespace Writing.EndsInToken

variable {ls ls' : Writing}

/-- What stands in front does not change how a writing ends. -/
theorem after (ls' : Writing) (h : ls.EndsInToken) : EndsInToken (ls' ++ ls) := by
  obtain ⟨ls, x, t, rfl, hx⟩ := h
  exact ⟨ls' ++ ls, x, t, (List.append_assoc _ _ _).symm, hx⟩

/-- A writing that ends in a token does. -/
theorem last (ls : Writing) {x : Lexeme} {t : List Char} (hx : x ≠ .space) :
    EndsInToken (ls ++ [(x, t)]) := ⟨ls, x, t, rfl, hx⟩

/-- A part that may be empty changes nothing. -/
theorem append (h : ls.EndsInToken) (h' : ls'.EndsInToken ∨ ls' = []) : EndsInToken (ls ++ ls') := by
  rcases h' with h' | rfl
  · exact h'.after ls
  · rwa [List.append_nil]

end Writing.EndsInToken

/-- The phrases that cannot end in white space. -/
def Phrase.isClosed : Phrase → Bool
  | level .expr | series _ | nextItem _ | pair => false
  | _                                          => true

/-- The forms of phrases that cannot end in white space. -/
def Form.isClosed : Form → Bool
  | one p | many p | perhaps p => p.isClosed

/-- Repeated and optional parts, which can be empty. -/
def Form.canBeEmpty : Form → Bool
  | one _              => false
  | many _ | perhaps _ => true

/-- A closed form ends in a token, if it is not empty. -/
theorem Tree.endsInToken_or_empty {f : Form} (d : Tree f) (hf : f.isClosed = true) :
    d.lexemes.EndsInToken ∨ d.lexemes = [] ∧ f.canBeEmpty = true := by
  -- one phrase is never empty, and what may be empty ends in a token if it is not
  have one {ls : Writing} {p : Phrase}
      (h : ls.EndsInToken ∨ ls = [] ∧ (Form.one p).canBeEmpty = true) : ls.EndsInToken :=
    h.elim id fun h => nomatch h.2
  have may {ls : Writing} {b : Bool} (h : ls.EndsInToken ∨ ls = [] ∧ b = true) :
      ls.EndsInToken ∨ ls = [] :=
    h.imp_right And.left
  induction d with
  | expr | series | nextItem | pair => cases hf
  | choice _ _ ih ih' => exact .inl ((one (ih rfl)).append (may (ih' rfl)))
  | branches _ _ yes _ _ _ _ ih =>
      exact .inl (.after (_ :: _ :: _ :: yes.lexemes) ((one (ih rfl)).after [_, _, _]))
  | logic c _ _ ih ih' =>
      have hc : (Form.one (.level c.operand)).isClosed = true := by cases c <;> rfl
      exact .inl ((one (ih hc)).append (may (ih' rfl)))
  | operand c _ _ _ _ ih =>
      have hc : (Form.one (.level c.operand)).isClosed = true := by cases c <;> rfl
      exact .inl ((one (ih hc)).after [_, _, _])
  | denial _ _ _ ih | minus _ _ ih => exact .inl ((one (ih rfl)).after [_, _])
  | comparison _ ih | single _ ih => exact .inl (one (ih rfl))
  | chain i _ _ ih ih' =>
      have hi : (Form.one (.level i.operand)).isClosed = true := by cases i <;> rfl
      exact .inl ((one (ih hi)).append (may (ih' rfl)))
  | step i _ _ _ _ _ ih =>
      have hi : (Form.one (.level i.operand)).isClosed = true := by cases i <;> rfl
      exact .inl ((one (ih hi)).after [_, _, _])
  | factor _ _ ih ih' => exact .inl ((one (ih rfl)).append (may (ih' rfl)))
  | nextTrailer _ _ ih => exact .inl ((one (ih rfl)).after [_])
  | call _ es _ => exact .inl (.after (_ :: _ :: es.lexemes) (.last [_] (by nofun)))
  | index e => exact .inl (.last (_ :: e.lexemes) (by nofun))
  | member => exact .inl (.last [_, _] (by nofun))
  | number | text | truth | null | var | textKey | numberKey | nameKey =>
      exact .inl (.last [] (by nofun))
  | inner e => exact .inl (.last (_ :: e.lexemes) (by nofun))
  | list _ es _ | dict _ es _ => exact .inl (.after (_ :: _ :: es.lexemes) (.last [_] (by nofun)))
  | absent | nil => exact .inr ⟨rfl, rfl⟩
  | present _ _ ih => exact .inl (one (ih hf))
  | cons _ _ _ ih ih' => exact .inl ((one (ih hf)).append (may (ih' hf)))

/-- A closed phrase ends in a token. -/
theorem Tree.endsInToken {p : Phrase} (d : Tree (.one p)) (hp : p.isClosed = true) :
    d.lexemes.EndsInToken :=
  (d.endsInToken_or_empty hp).elim id fun h => nomatch h.2

/-- Lexemes that end in a token stay as they are when a break is put behind. -/
theorem greedy_allows_append {ls : Writing} {v u : List Char} (hl : ls.EndsInToken)
    (hu : Breaks u) (h : greedy.Allows ls v) : greedy.Allows ls (v ++ u) := by
  obtain ⟨ls, y, s, rfl, hy⟩ := hl
  rw [Lexicon.allows_append] at h ⊢
  obtain ⟨h, hs, -⟩ := h
  refine ⟨?_, show greedy y s (v ++ u) from greedy_append hy hu hs, trivial⟩
  obtain ⟨c, s, rfl, -⟩ := greedy_starts hy hs
  induction ls with
  | nil => trivial
  | cons l ls ih =>
      obtain ⟨x, t⟩ := l
      refine ⟨?_, ih h.2⟩
      by_cases hx : x = .space
      · -- What follows white space starts in the same way, as a token is still to come.
        subst hx
        obtain ⟨hw, hc⟩ := greedy_space.mp h.1
        refine greedy_space.mpr ⟨hw, fun a ha => hc a ?_⟩
        cases hls : Writing.text ls <;> rw [hls] at ha <;> exact ha
      · simpa only [Writing.text_cons, Writing.text_nil, List.append_nil, List.append_assoc] using
          greedy_append hx hu h.1

/-! ### Texts that stand alone -/

/-- The text `s` is read as `e` in front of white space `w'` and every break behind it, and there is
white space `w` before it. -/
structure Standing (w s w' : List Char) (e : Expr) : Prop where
  before : ∀ c ∈ w, isSpace c = true
  behind : ∀ c ∈ w', isSpace c = true
  head : Solid s
  reads : ∀ u, Breaks u → Reading.At .choice s e (w' ++ u)

section Standing

variable {t s w w' u v v' k : List Char} {e : Expr}

/-- A text that is compiled stands alone. -/
theorem standing_of_compileChars (h : compileChars t = .ok e) :
    ∃ w s w', t = w ++ (s ++ w') ∧ Standing w s w' e := by
  obtain ⟨d, rfl, hr, rfl⟩ := derivation_of_compileChars h
  cases d with
  | expr w d w' =>
      obtain ⟨hw, hd, hw'⟩ := Tree.reads_expr.mp hr
      rw [List.append_nil] at hd
      refine ⟨w, d.spelled, w', Tree.spelled_expr d, ?_, ?_, ?_, ?_⟩
      · exact (greedy_space.mp hw).1
      · exact (greedy_space.mp hw').1
      · exact d.head_not_space hd
      · intro u hu
        exact ⟨d, rfl, rfl, greedy_allows_append (d.endsInToken rfl) hu hd⟩

namespace Standing

/-- More white space around an expression belongs to what stands around it. -/
theorem around (h : Standing w s w' e) (hv : ∀ c ∈ v, isSpace c = true)
    (hv' : ∀ c ∈ v', isSpace c = true) : Standing (v ++ w) s (w' ++ v') e where
  before c hc := (List.mem_append.mp hc).elim (hv c) (h.before c)
  behind c hc := (List.mem_append.mp hc).elim (h.behind c) (hv' c)
  head := h.head
  reads u hu := by
    rw [List.append_assoc]
    exact h.reads (v' ++ u) (breaks_of_spaces hv' hu)

/-- The white space in front is taken whole. -/
theorem gap (h : Standing w s w' e) (k : List Char) : greedy .space w (s ++ k) :=
  gap_before h.before h.head k

/-- Without the white space before it, which may belong to something else. -/
theorem trimmed (h : Standing w s w' e) : Standing [] s w' e :=
  ⟨nofun, h.behind, h.head, h.reads⟩

/-- What stands for an expression is read as it, in front of what closes. -/
theorem expr (h : Standing w s w' e) (hk : Closes k) : Reading.At .expr (w ++ (s ++ w')) e k :=
  .expr (h.gap _) (h.reads k hk.1) (greedy_space.mpr ⟨h.behind, hk.2⟩)

end Standing

/-- White space does not begin what stands inside of it. -/
theorem Standing.head_not_blank (h : Standing w s w' e) : ∀ c ∈ s.head?, Text.isBlank c = false := by
  obtain ⟨d, rfl, -, hr⟩ := h.reads [] breaks_nil
  obtain ⟨c, u, hs, hc⟩ := d.head_not_blank hr
  rw [hs]
  rintro a ⟨⟩
  exact hc

/-- What is compiled is read in front of what closes it. -/
theorem reading_of_compileChars (h : compileChars t = .ok e) (hk : Closes k) :
    Reading.At .expr t e k := by
  obtain ⟨w, s, w', rfl, hs⟩ := standing_of_compileChars h
  exact hs.expr hk

/-- What compiles can be read. -/
theorem readable_of_compileChars (h : compileChars t = .ok e) : e.hasUnreadable = false :=
  (compileChars_eq_ok.mp h).2

/-! ### Names -/

/-- What a form stands for is a variable. -/
def Form.IsVar (n : String) : (f : Form) → f.Value → Prop
  | one (.level _), e => e = .var n
  | _, _              => False

/-- A variable is derived from its name. -/
theorem Tree.mem_lexemes_of_isVar {f : Form} (d : Tree f) {n : String} (h : f.IsVar n d.image) :
    (.name, n.toList) ∈ d.lexemes := by
  induction d with
  | expr _ _ _ ih => exact List.mem_cons_of_mem _ (List.mem_append_left _ (ih h))
  | choice test b ih _ =>
      refine List.mem_append_left _ (ih ?_)
      simp only [Form.IsVar, image] at h
      -- with branches it would be a choice
      cases hb : b.image with
      | none => rwa [hb] at h
      | some q => simp [hb] at h
  | logic c e es ih _ =>
      refine List.mem_append_left _ ?_
      cases c with
      | disj =>
          refine ih ?_
          simp only [Form.IsVar, image] at h
          -- with another operand it would be an operation
          cases hs : es.image with
          | nil => rwa [hs] at h
          | cons => rw [hs] at h; cases h
      | conj =>
          refine ih ?_
          simp only [Form.IsVar, image] at h
          cases hs : es.image with
          | nil => rwa [hs] at h
          | cons => rw [hs] at h; cases h
  | comparison _ ih | single _ ih => exact ih h
  | chain i e ss ih _ =>
      refine List.mem_append_left _ (ih ?_)
      simp only [Form.IsVar, image] at h
      cases hs : ss.image with
      | nil => rwa [hs] at h
      | cons => rw [hs] at h; cases h
  | factor a ts ih _ =>
      refine List.mem_append_left _ (ih ?_)
      simp only [Form.IsVar, image] at h
      cases hs : ts.image with
      | nil => rwa [hs] at h
      | cons => rw [hs] at h; cases h
  | inner _ ih => exact List.mem_cons_of_mem _ (List.mem_append_left _ (ih h))
  | var n' =>
      simp only [Form.IsVar, image, Expr.var.injEq] at h
      simp [lexemes, ← h]
  | _ => cases h

/-- A name that is compiled to its variable is a name in front of every break. -/
theorem name_of_compileChars {n : String} (h : compileChars n.toList = .ok (.var n))
    (hu : Breaks u) : greedy .name n.toList u := by
  obtain ⟨d, hs, hr, hd⟩ := derivation_of_compileChars h
  obtain ⟨ls, ls', hls⟩ := List.append_of_mem (d.mem_lexemes_of_isVar hd)
  -- The name is as long as the text, so that there is nothing around it.
  have htext : (Writing.text ls' ++ []).length = 0 := by
    have := congrArg List.length hs
    simp only [Tree.spelled, hls, Writing.text_append, Writing.text_cons, List.length_append] at this
    simp only [List.append_nil]
    omega
  rw [Tree.Reads, hls] at hr
  have := (Lexicon.allows_append.mp hr).2.1
  rw [List.length_eq_zero_iff.mp htext] at this
  exact greedy_append (by simp) hu this

end Standing

/-! ### Items between commas -/

/-- The text `t` is read as `a` in front of what closes it, and so is what is left of it when the
white space before it is taken away. -/
structure Item (p : Phrase) (t : List Char) (a : p.Value) : Prop where
  reads : ∀ k, Closes k → Reading (.one p) t a k
  first : ∃ w s, t = w ++ s ∧
    ∀ k, Closes k → greedy .space w (s ++ k) ∧ Reading (.one p) s a k

section Items

variable {t k : List Char} {e : Expr} {n : String} {p : Phrase} {xs : List (List Char × p.Value)}

/-- An expression with white space around it can be an item. -/
theorem Standing.item {w s w' : List Char} (h : Standing w s w' e) :
    Item (.level .expr) (w ++ (s ++ w')) e := by
  refine ⟨fun k hk => h.expr hk, w, s ++ w', rfl, fun k hk => ⟨?_, h.trimmed.expr hk⟩⟩
  rw [List.append_assoc]
  exact h.gap (w' ++ k)

/-- A text that compiles can be an item of a list. -/
theorem item_expr (h : compileChars t = .ok e) : Item (.level .expr) t e := by
  obtain ⟨w, s, w', rfl, hs⟩ := standing_of_compileChars h
  exact hs.item

/-- A pair, whose key may have white space around it. -/
theorem item_pair {l : Literal} {w s v : List Char} (hw : ∀ c ∈ w, isSpace c = true)
    (hv : ∀ c ∈ v, isSpace c = true) (hs : Solid s)
    (hkey : ∀ u, Breaks u → Reading (.one .key) s l u) (h : Item (.level .expr) t e) :
    Item .pair (w ++ (s ++ (v ++ ':' :: t))) (l, e) := by
  have reads {w : List Char} (hw : ∀ c ∈ w, isSpace c = true) (k : List Char) (hk : Closes k) :
      Reading (.one .pair) (w ++ (s ++ (v ++ ':' :: t))) (l, e) k := by
    have hcolon : Breaks (':' :: (t ++ k)) := (closes_cons rfl rfl).1
    exact .pair (gap_before hw hs _) (hkey _ (breaks_of_spaces hv hcolon))
      (gap_before_symbol hv rfl) (h.reads k hk)
  refine ⟨reads hw, w, s ++ (v ++ ':' :: t), rfl, fun k hk => ⟨?_, reads (w := []) nofun k hk⟩⟩
  rw [List.append_assoc]
  exact gap_before hw hs _

/-- A name and a text that compiles can be a pair. -/
theorem item_name (hn : compileChars n.toList = .ok (.var n)) (h : compileChars t = .ok e) :
    Item .pair (n.toList ++ ':' :: t) (.text n, e) := by
  refine item_pair (w := []) (v := []) nofun nofun ?_ (fun u hu => ?_) (item_expr h)
  · exact solid_of_greedy rfl (name_of_compileChars hn (u := []) nofun)
  · simpa using Reading.nameKey (name_of_compileChars hn hu)

/-- Items with a comma before each. -/
theorem reading_of_items (h : ∀ x ∈ xs, Item p x.1 x.2) (hk : Closes k) :
    Reading (.many (.nextItem p)) (xs.flatMap fun x => ',' :: x.1) (xs.map (·.2)) k ∧
      Closes ((xs.flatMap fun x => ',' :: x.1) ++ k) := by
  induction xs with
  | nil => exact ⟨.nil _ k, hk⟩
  | cons x xs ih =>
      obtain ⟨hx, hxs⟩ := List.forall_mem_cons.mp h
      obtain ⟨hr, hc⟩ := ih hxs
      exact ⟨.cons (hx.reads _ hc).nextItem hr, closes_cons rfl rfl⟩

/-- Items with commas between them are the first one and the others, each behind a comma. -/
theorem intercalate_comma (x : List Char × p.Value) (xs : List (List Char × p.Value)) :
    [','].intercalate ((x :: xs).map (·.1)) = x.1 ++ xs.flatMap fun x => ',' :: x.1 := by
  induction xs generalizing x with
  | nil => simp
  | cons y xs ih =>
      simp only [List.map_cons] at ih ⊢
      rw [List.intercalate_cons_cons, ih y, List.flatMap_cons]
      simp

/-- Items with commas between them, if there are any.  White space before the first is not theirs. -/
theorem series_of_items (hp : p.isItem = true) (h : ∀ x ∈ xs, Item p x.1 x.2) (hk : Closes k) :
    ∃ w s as, [','].intercalate (xs.map (·.1)) = w ++ s ∧ Rule.orNothing as = xs.map (·.2) ∧
      greedy .space w (s ++ k) ∧ Reading (.perhaps (.series p)) s as k := by
  cases xs with
  | nil => exact ⟨[], [], none, rfl, rfl, greedy_space.mpr ⟨nofun, hk.2⟩, .absent _ k⟩
  | cons x xs =>
      obtain ⟨hx, hxs⟩ := List.forall_mem_cons.mp h
      obtain ⟨hr, hc⟩ := reading_of_items hxs hk
      obtain ⟨w, s, hs, hfirst⟩ := hx.first
      obtain ⟨hw, hx⟩ := hfirst _ hc
      refine ⟨w, s ++ xs.flatMap fun x => ',' :: x.1, some (x.2 :: xs.map (·.2)), ?_, rfl, ?_, ?_⟩
      · rw [intercalate_comma, hs, List.append_assoc]
      · rwa [List.append_assoc]
      · exact .present (.series hp hx hr)

end Items

/-! ### Brackets -/

section Brackets

variable {t : List Char} {e : Expr} {n : String} {xs : List (List Char × Expr)}

/-- A list can be read if all its items can. -/
theorem anyUnreadable_eq_false {es : List Expr} :
    anyUnreadable es = false ↔ ∀ e ∈ es, e.hasUnreadable = false := by
  induction es with
  | nil => simp [anyUnreadable]
  | cons e es ih => simp [anyUnreadable, ih]

/-- A dictionary can be read if all its keys and values can. -/
theorem anyPairUnreadable_eq_false {ps : List (Literal × Expr)} :
    anyPairUnreadable ps = false ↔
      ∀ q ∈ ps, q.1.isUnreadable = false ∧ q.2.hasUnreadable = false := by
  induction ps with
  | nil => simp [anyPairUnreadable]
  | cons q ps ih =>
      obtain ⟨l, e⟩ := q
      simp [anyPairUnreadable, pairUnreadable, ih]

/-- What is read without white space around it is matched. -/
theorem matches_of_reading_nth {r : Nat} {s : List Char} (h : Reading.At (.nth r) s e []) :
    Matches s e := by
  have inside : Reading.At .choice s e ([] ++ []) := h.loosen (m := 0) (Nat.zero_le r)
  have := Reading.expr (gap_before (w := []) nofun h.solid _) inside (greedy_space.mpr ⟨nofun, nofun⟩)
  rw [List.nil_append, List.append_nil] at this
  obtain ⟨d, hs, hd, hr⟩ := this
  exact matches_iff_derivation.mpr ⟨d, hs, hr, hd⟩

/-- What is read without white space around it is compiled. -/
theorem compileChars_of_reading_nth {r : Nat} {s : List Char} (h : Reading.At (.nth r) s e [])
    (hu : e.hasUnreadable = false) : compileChars s = .ok e :=
  compileChars_eq_ok.mpr ⟨matches_of_reading_nth h, hu⟩

/-- A name with a call, an index or a member behind it is compiled. -/
theorem compileChars_of_trailer (hn : compileChars n.toList = .ok (.var n)) {c : Char}
    {u : List Char} {x : Tail} (hc : isBreak c = true) (hs : isSpace c = false)
    (h : Reading (.one .trailer) (c :: u) x []) (hu : tailUnreadable x = false) :
    compileChars (n.toList ++ c :: u) = .ok (.factor (.var n) [x]) := by
  have atom : Reading.At .atom n.toList (.var n) ((c :: u) ++ []) := by
    have name : greedy .name n.toList ((c :: u) ++ []) :=
      name_of_compileChars hn (by rintro a ⟨⟩; exact hc)
    simpa using Reading.var name
  have trailers : Reading (.many .nextTrailer) (c :: u) [x] [] := by
    have hw : greedy .space [] ((c :: u) ++ []) :=
      gap_before (w := []) nofun (solid_cons hs) []
    have := Reading.cons (u := []) (Reading.nextTrailer hw h) (.nil _ [])
    rwa [List.append_nil] at this
  exact compileChars_of_reading_nth (r := 8) (Reading.factor atom trailers)
    (by simp [hasUnreadable, anyTailUnreadable, hu])

/-- White space around a text does not change what it compiles to. -/
theorem compileChars_around {v v' : List Char} (hv : ∀ c ∈ v, isSpace c = true)
    (hv' : ∀ c ∈ v', isSpace c = true) (h : compileChars t = .ok e) :
    compileChars (v ++ t ++ v') = .ok e := by
  obtain ⟨w, s, w', rfl, hs⟩ := standing_of_compileChars h
  have := (hs.around hv hv').expr closes_nil
  simp only [List.append_assoc] at this ⊢
  exact compileChars_of_reading this (readable_of_compileChars h)

/-- The blanks that lead in a text that is compiled do not matter. -/
theorem compileChars_dropLeading (h : compileChars t = .ok e) :
    compileChars (Text.dropLeading Text.isBlank t) = .ok e := by
  obtain ⟨w, s, w', rfl, hs⟩ := standing_of_compileChars h
  obtain ⟨c, u, hsolid, -⟩ := hs.head
  have hw : w.all Text.isBlank = true :=
    List.all_eq_true.mpr fun c hc => Text.isBlank_of_isSpace (hs.before c hc)
  have hhead : ∀ a ∈ (s ++ w').head?, Text.isBlank a = false := by
    intro a ha
    exact hs.head_not_blank a (by simpa [hsolid] using ha)
  rw [Text.dropLeading_append hw hhead]
  exact compileChars_of_reading (hs.trimmed.expr closes_nil) (readable_of_compileChars h)

/-- Neither do parentheses. -/
theorem compileChars_inner (h : compileChars t = .ok e) :
    compileChars ('(' :: (t ++ [')'])) = .ok e :=
  compileChars_of_reading_nth (r := 9)
    (.inner (reading_of_compileChars h (closes_cons rfl rfl))) (readable_of_compileChars h)

/-- A text between brackets behind a name is an index. -/
theorem compileChars_index (hn : compileChars n.toList = .ok (.var n))
    (h : compileChars t = .ok e) :
    compileChars (n.toList ++ '[' :: (t ++ [']'])) = .ok (.factor (.var n) [.index e]) :=
  compileChars_of_trailer hn rfl rfl (.index (reading_of_compileChars h (closes_cons rfl rfl)))
    (readable_of_compileChars h)

/-- Expressions between commas in front of what closes them. -/
theorem series_of_compileChars (h : ∀ x ∈ xs, compileChars x.1 = .ok x.2) {k : List Char}
    (hk : Closes k) :
    (∃ w s es, [','].intercalate (xs.map (·.1)) = w ++ s ∧ Rule.orNothing es = xs.map (·.2) ∧
      greedy .space w (s ++ k) ∧ Reading (.perhaps (.series (.level .expr))) s es k) ∧
    anyUnreadable (xs.map (·.2)) = false := by
  refine ⟨series_of_items (p := .level .expr) rfl (fun x hx => item_expr (h x hx)) hk, ?_⟩
  refine anyUnreadable_eq_false.mpr (List.forall_mem_map.mpr fun x hx => ?_)
  exact readable_of_compileChars (h x hx)

/-- Texts between parentheses behind a name are arguments. -/
theorem compileChars_call (hn : compileChars n.toList = .ok (.var n))
    (h : ∀ x ∈ xs, compileChars x.1 = .ok x.2) :
    compileChars (n.toList ++ '(' :: ([','].intercalate (xs.map (·.1)) ++ [')'])) =
      .ok (.factor (.var n) [.call (xs.map (·.2))]) := by
  obtain ⟨⟨w, s, es, hs, hes, hw, hr⟩, hu⟩ :=
    series_of_compileChars h (k := [')']) (closes_cons rfl rfl)
  have call := Reading.call (v := []) hw hr (gap_before_symbol nofun rfl)
  rw [hes] at call
  rw [hs, List.append_assoc]
  exact compileChars_of_trailer hn rfl rfl call hu

/-- Texts between brackets are the items of a list. -/
theorem compileChars_list (h : ∀ x ∈ xs, compileChars x.1 = .ok x.2) :
    compileChars ('[' :: ([','].intercalate (xs.map (·.1)) ++ [']'])) =
      .ok (.list (xs.map (·.2))) := by
  obtain ⟨⟨w, s, es, hs, hes, hw, hr⟩, hu⟩ :=
    series_of_compileChars h (k := [']']) (closes_cons rfl rfl)
  have list := Reading.list (v := []) hw hr (gap_before_symbol nofun rfl)
  rw [hes] at list
  rw [hs, List.append_assoc]
  exact compileChars_of_reading_nth (r := 9) list hu

/-- Names and texts between braces are a dictionary. -/
theorem compileChars_dict {qs : List (String × String × Expr)}
    (h : ∀ q ∈ qs, compileChars q.1.toList = .ok (.var q.1) ∧
      compileChars q.2.1.toList = .ok q.2.2) :
    compileChars ('\x7b' ::
      ([','].intercalate (qs.map fun q => q.1.toList ++ ':' :: q.2.1.toList) ++ ['\x7d'])) =
        .ok (.dict (qs.map fun q => (.text q.1, q.2.2))) := by
  have items : ∀ x ∈ qs.map fun q => (q.1.toList ++ ':' :: q.2.1.toList,
      ((Literal.text q.1, q.2.2) : Literal × Expr)), Item .pair x.1 x.2 :=
    List.forall_mem_map.mpr fun q hq => item_name (h q hq).1 (h q hq).2
  obtain ⟨w, s, ps, hs, hps, hw, hr⟩ :=
    series_of_items (p := .pair) (k := ['\x7d']) rfl items (closes_cons rfl rfl)
  have readable : anyPairUnreadable (qs.map fun q => (.text q.1, q.2.2)) = false := by
    refine anyPairUnreadable_eq_false.mpr (List.forall_mem_map.mpr fun q hq => ?_)
    exact ⟨rfl, readable_of_compileChars (h q hq).2⟩
  have dict := Reading.dict (v := []) hw hr (gap_before_symbol nofun rfl)
  rw [List.map_map] at hs hps
  rw [hps] at dict
  rw [Function.comp_def] at hs
  rw [hs, List.append_assoc]
  exact compileChars_of_reading_nth (r := 9) dict readable

end Brackets

/-- **Independence of the context.**  Texts that are compiled alone are compiled to the same
expressions with white space around them, in parentheses, as arguments, as items of a list, as an
index and as the values of a dictionary. -/
theorem compile_in_context {t w w' f : String} {e : Expr} {xs : List (String × Expr)}
    {qs : List (String × String × Expr)} (ht : compile t = .ok e)
    (hw : ∀ c ∈ w.toList, isSpace c = true) (hw' : ∀ c ∈ w'.toList, isSpace c = true)
    (hf : compile f = .ok (.var f)) (hxs : ∀ x ∈ xs, compile x.1 = .ok x.2)
    (hqs : ∀ q ∈ qs, compile q.1 = .ok (.var q.1) ∧ compile q.2.1 = .ok q.2.2) :
    compile (w ++ t ++ w') = .ok e ∧
    compile ("(" ++ t ++ ")") = .ok e ∧
    compile (f ++ "(" ++ ",".intercalate (xs.map (·.1)) ++ ")") =
      .ok (.factor (.var f) [.call (xs.map (·.2))]) ∧
    compile (Scope.formatName ++ "(" ++ ",".intercalate (xs.map (·.1)) ++ ")") =
      .ok (.factor (.var Scope.formatName) [.call (xs.map (·.2))]) ∧
    compile ("[" ++ ",".intercalate (xs.map (·.1)) ++ "]") = .ok (.list (xs.map (·.2))) ∧
    compile (f ++ "[" ++ t ++ "]") = .ok (.factor (.var f) [.index e]) ∧
    compile ("\x7b" ++ ",".intercalate (qs.map fun q => q.1 ++ ":" ++ q.2.1) ++ "\x7d") =
      .ok (.dict (qs.map fun q => (.text q.1, q.2.2))) := by
  have parts : ∀ x ∈ xs.map fun x => (x.1.toList, x.2), compileChars x.1 = .ok x.2 :=
    List.forall_mem_map.mpr hxs
  -- the name of the formatting function is a name like `f`
  have hformat : compileChars Scope.formatName.toList = .ok (.var Scope.formatName) := by cbv
  have call {n : String} (hn : compileChars n.toList = .ok (.var n)) :
      compile (n ++ "(" ++ ",".intercalate (xs.map (·.1)) ++ ")") =
        .ok (.factor (.var n) [.call (xs.map (·.2))]) := by
    simpa [compile, String.toList_intercalate, Function.comp_def] using compileChars_call hn parts
  refine ⟨?_, ?_, call hf, call hformat, ?_, ?_, ?_⟩
  · simpa [compile] using compileChars_around hw hw' ht
  · simpa [compile] using compileChars_inner ht
  · simpa [compile, String.toList_intercalate, Function.comp_def] using compileChars_list parts
  · simpa [compile] using compileChars_index hf ht
  · simpa [compile, String.toList_intercalate, Function.comp_def] using
      compileChars_dict hqs

theorem compile_in_context_bracket :
    compile ("\n" ++ " ')' " ++ "\u2003") = .ok (.literal (.text ")")) ∧
    compile ("(" ++ " ')' " ++ ")") = .ok (.literal (.text ")")) ∧
    compile ("not_" ++ "(" ++ ",".intercalate ["x . y ", "[] "] ++ ")") =
      .ok (.factor (.var "not_") [.call [.factor (.var "x") [.member "y"], .list []]]) ∧
    compile (Scope.formatName ++ "(" ++ ",".intercalate ["x . y ", "[] "] ++ ")") =
      .ok (.factor (.var Scope.formatName) [.call [.factor (.var "x") [.member "y"], .list []]]) ∧
    compile ("[" ++ ",".intercalate ["x . y ", "[] "] ++ "]") =
      .ok (.list [.factor (.var "x") [.member "y"], .list []]) ∧
    compile ("not_" ++ "[" ++ " ')' " ++ "]") =
      .ok (.factor (.var "not_") [.index (.literal (.text ")"))]) ∧
    compile ("\x7b" ++ ",".intercalate ["k" ++ ":" ++ "-v"] ++ "\x7d") =
      .ok (.dict [(.text "k", .neg (.var "v"))]) := by
  have text : compile " ')' " = .ok (.literal (.text ")")) := by cbv
  have name : compile "not_" = .ok (.var "not_") := by cbv
  have key : compile "k" = .ok (.var "k") := by cbv
  have neg : compile "-v" = .ok (.neg (.var "v")) := by cbv
  have member : compile "x . y " = .ok (.factor (.var "x") [.member "y"]) := by cbv
  have list : compile "[] " = .ok (.list []) := by cbv
  have line : ∀ c ∈ "\n".toList, isSpace c = true := by decide +kernel
  have space : ∀ c ∈ "\u2003".toList, isSpace c = true := by decide +kernel
  have items : ∀ x ∈ [("x . y ", Expr.factor (.var "x") [.member "y"]), ("[] ", .list [])],
      compile x.1 = .ok x.2 :=
    List.forall_mem_cons.mpr ⟨member, List.forall_mem_singleton.mpr list⟩
  have pairs : ∀ q ∈ [("k", "-v", Expr.neg (.var "v"))],
      compile q.1 = .ok (.var q.1) ∧ compile q.2.1 = .ok q.2.2 :=
    List.forall_mem_singleton.mpr ⟨key, neg⟩
  simpa only [List.map_cons, List.map_nil] using
    compile_in_context text line space name items pairs

end Trellis.Expr
