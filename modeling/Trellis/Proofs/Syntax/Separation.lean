import Trellis.Proofs.Syntax.Tokens

/-!
# Proofs — Syntax — Separation

The characters that end every token other than white space and texts in quotes: white space,
brackets, commas and colons.

* `isBreak`: those characters.  They are in no word, name or number.
* `Pattern.Settled`: what the pattern does at the front of a text stays the same when a text that
  starts with a break is put behind.  Symbols, words, names and numbers are settled.
-/

namespace Trellis.Text

/-! ### White space -/

/-- The characters of white space. -/
def spaceCodes : List Nat :=
  [9, 10, 11, 12, 13, 0x20, 0x85, 0xa0, 0x1680, 0x2000, 0x2001, 0x2002, 0x2003, 0x2004, 0x2005,
    0x2006, 0x2007, 0x2008, 0x2009, 0x200a, 0x2028, 0x2029, 0x202f, 0x205f, 0x3000]

/-- White space is one of the listed characters. -/
theorem toNat_mem_spaceCodes {c : Char} (h : isSpace c = true) : c.toNat ∈ spaceCodes := by
  simp only [isSpace, Bool.or_eq_true, Bool.and_eq_true, decide_eq_true_eq, beq_iff_eq] at h
  simp only [spaceCodes, List.mem_cons, List.not_mem_nil, or_false]
  omega

/-- What holds of each character of the list holds of all white space. -/
theorem of_isSpace {P : Char → Prop} (h : ∀ n ∈ spaceCodes, P (Char.ofNat n)) {c : Char}
    (hc : isSpace c = true) : P c := by
  have := h _ (toNat_mem_spaceCodes hc)
  rwa [Char.ofNat_toNat] at this

/-- Ranges without word characters in which all white space above ASCII is. -/
def spaceRanges : List (Nat × Nat) :=
  [(0x85, 0x85), (0xa0, 0xa0), (0x1680, 0x1680), (0x2000, 0x200a), (0x2028, 0x202f),
    (0x205f, 0x205f), (0x3000, 0x3000)]

/-- The ranges of word characters leave out those of white space. -/
theorem spaceRanges_disjoint :
    ∀ r ∈ Table.word.toList, ∀ g ∈ spaceRanges, r.2 < g.1 ∨ g.2 < r.1 := by
  decide +kernel

/-- The listed characters outside of ASCII are in these ranges. -/
theorem spaceRanges_cover :
    ∀ n ∈ spaceCodes, n < 128 ∨ ∃ g ∈ spaceRanges, g.1 ≤ n ∧ n ≤ g.2 := by
  decide

/-- White space is in no word. -/
theorem isWord_of_isSpace {c : Char} (h : isSpace c = true) : isWord c = false := by
  unfold isWord
  split
  · revert h
    exact of_isSpace (P := fun c => (isAsciiLetter c || isAsciiDigit c || c == '_') = false)
      (by decide)
  · next hc =>
    obtain hlt | ⟨g, hg, hlo, hhi⟩ := spaceRanges_cover _ (toNat_mem_spaceCodes h)
    · exact absurd hlt hc
    · rw [inRanges, ← Array.any_toList, List.any_eq_false]
      intro r hr
      have := spaceRanges_disjoint r hr g hg
      simp only [Bool.and_eq_true, decide_eq_true_eq]
      omega

end Trellis.Text

namespace Trellis.Expr

open Trellis.Text

/-- What is said of the characters in a list is decided for these, not for all characters. -/
instance (priority := high) decidableInList {α : Type} {p : α → Prop} [DecidablePred p]
    (l : List α) : Decidable (∀ a ∈ l, p a) :=
  List.decidableBAll p l

/-- White space, brackets, commas and colons. -/
def isBreak (c : Char) : Bool :=
  isSpace c || ['(', ')', '[', ']', '\x7b', '\x7d', ',', ':'].contains c

/-- The text is empty or starts with a break. -/
def Breaks (u : List Char) : Prop := ∀ c ∈ u.head?, isBreak c = true

theorem breaks_nil : Breaks [] := nofun

/-- What holds of white space and of each other break holds of all breaks. -/
theorem of_isBreak {P : Char → Prop} (hs : ∀ n ∈ spaceCodes, P (Char.ofNat n))
    (hb : ∀ c ∈ ['(', ')', '[', ']', '\x7b', '\x7d', ',', ':'], P c) {c : Char}
    (hc : isBreak c = true) : P c := by
  simp only [isBreak, Bool.or_eq_true, List.contains_iff_mem] at hc
  obtain hc | hc := hc
  · exact of_isSpace hs hc
  · exact hb c hc

/-- No break is a digit. -/
theorem isDecimal_of_isBreak {c : Char} (h : isBreak c = true) : isDecimal c = false :=
  of_isBreak (P := fun c => isDecimal c = false) (by decide +kernel) (by decide +kernel) h

/-- No break is in a word. -/
theorem isWord_of_isBreak {c : Char} (h : isBreak c = true) : isWord c = false := by
  simp only [isBreak, Bool.or_eq_true, List.contains_iff_mem] at h
  obtain h | h := h
  · exact isWord_of_isSpace h
  · revert h
    exact (by decide : ∀ c ∈ ['(', ')', '[', ']', '\x7b', '\x7d', ',', ':'], isWord c = false) c

/-- No break goes on with a name. -/
theorem continuesName_of_isBreak {c : Char} (h : isBreak c = true) :
    Token.continuesName c = false :=
  of_isBreak (P := fun c => Token.continuesName c = false) (by decide +kernel) (by decide) h

/-! ### Settled patterns -/

/-- The text taken and the rest, with more behind. -/
def extend (u : List Char) (q : List Char × List Char) : List Char × List Char := (q.1, q.2 ++ u)

/-- What the pattern does stays the same when a text that starts with a break is put behind. -/
def Pattern.Settled (p : Pattern) : Prop :=
  ∀ s {u : List Char}, Breaks u → p (s ++ u) = (p s).map (extend u)

namespace Token

variable {s t r u : List Char}

/-- What is taken up to a break is the same, whatever stands behind it. -/
theorem span_breaks {p : Char → Bool} (hp : ∀ {c}, isBreak c = true → p c = false) (s : List Char)
    (hu : Breaks u) :
    (s ++ u).takeWhile p = s.takeWhile p ∧ (s ++ u).dropWhile p = s.dropWhile p ++ u := by
  induction s with
  | nil =>
      cases u with
      | nil => simp
      | cons c u => simp [hp (hu c rfl)]
  | cons c s ih =>
      by_cases hc : p c
      · simp [hc, ih]
      · simp [hc]

/-- A text without breaks is settled. -/
theorem settled_exactly (ht : ∀ c ∈ t, isBreak c = false) : (exactly t).Settled := by
  intro s u hu
  have h : t.isPrefixOf (s ++ u) = t.isPrefixOf s := by
    induction t generalizing s with
    | nil => rfl
    | cons a t ih =>
        cases s with
        | cons b s => simp [List.isPrefixOf, ih (fun c hc => ht c (List.mem_cons_of_mem _ hc))]
        | nil =>
            cases u with
            | nil => rfl
            | cons b u =>
                have : a ≠ b := by
                  rintro rfl
                  simpa [ht a List.mem_cons_self] using hu a rfl
                simp [List.isPrefixOf, this]
  simp only [exactly, h]
  split
  · next hp =>
    have := (List.isPrefixOf_iff_prefix.mp hp).length_le
    simp [extend, List.drop_append_of_le_length this]
  · rfl

/-- Whether a word ends is not changed by a break behind it. -/
theorem endsWord_breaks (hu : Breaks u) : endsWord (r ++ u) = endsWord r := by
  cases r with
  | cons c r => rfl
  | nil =>
      cases u with
      | nil => rfl
      | cons c u => simp [endsWord, isWord_of_isBreak (hu c rfl)]

/-- A word is settled. -/
theorem settled_word {w : String} (hw : ∀ c ∈ w.toList, isBreak c = false) :
    (word w).Settled := by
  intro s u hu
  simp only [word, settled_exactly hw s hu]
  cases exactly w.toList s with
  | none => rfl
  | some q =>
      simp only [Option.map_some, extend, endsWord_breaks hu]
      split <;> rfl

/-- One of several patterns is settled if all are. -/
theorem settled_oneOf {ps : List Pattern} (h : ∀ p ∈ ps, p.Settled) : (oneOf ps).Settled := by
  intro s u hu
  induction ps with
  | nil => rfl
  | cons p ps ih =>
      simp only [oneOf, h p List.mem_cons_self s hu]
      cases p s with
      | none => exact ih fun p hp => h p (List.mem_cons_of_mem _ hp)
      | some q => rfl

/-- So is one of several words. -/
theorem settled_words {ws : List String} (h : ∀ w ∈ ws, ∀ c ∈ w.toList, isBreak c = false) :
    (oneOf (ws.map word)).Settled := by
  refine settled_oneOf fun p hp => ?_
  obtain ⟨w, hw, rfl⟩ := List.mem_map.mp hp
  exact settled_word (h w hw)

theorem settled_reservedWord : reservedWord.Settled := settled_words (by decide)

theorem settled_truthWord : truthWord.Settled := settled_words (by decide)

theorem settled_nullWord : nullWord.Settled := settled_words (by decide)

/-- A name is settled: a break ends it. -/
theorem settled_identifier : identifier.Settled := by
  intro s u hu
  cases s with
  | cons c s =>
      obtain ⟨ht, hd⟩ := span_breaks continuesName_of_isBreak s hu
      simp only [identifier, List.cons_append, ht, hd]
      split <;> rfl
  | nil =>
      cases u with
      | nil => rfl
      | cons c u =>
          have hc := continuesName_of_isBreak (hu c rfl)
          simp only [continuesName, Bool.or_eq_false_iff] at hc
          simp [identifier, hc.1]

/-- Of two settled patterns, the first one that fits is settled. -/
theorem settled_either {p q : Pattern} (hp : p.Settled) (hq : q.Settled) :
    (oneOf [p, q]).Settled := by
  refine settled_oneOf fun r hr => ?_
  simp only [List.mem_cons, List.not_mem_nil, or_false] at hr
  obtain rfl | rfl := hr
  · exact hp
  · exact hq

/-- A denial is settled, as a word or as a sign. -/
theorem settled_denial : denial.Settled :=
  settled_either (settled_word (by decide)) (settled_exactly (by decide))

/-- So is the word `and`, and its sign. -/
theorem settled_conjunctive : conjunctive.Settled :=
  settled_either (settled_exactly (by decide)) (settled_word (by decide))

/-- So is the word `or`, and its sign. -/
theorem settled_disjunctive : disjunctive.Settled :=
  settled_either (settled_exactly (by decide)) (settled_word (by decide))

/-! ### Numbers are settled -/

/-- Digits are settled. -/
theorem settled_digits : digits.Settled := by
  intro s u hu
  obtain ⟨ht, hd⟩ := span_breaks isDecimal_of_isBreak s hu
  simp only [digits, ht, hd]
  split <;> rfl

/-- A break is not the point, sign or mark that a number goes on with. -/
theorem ne_of_isBreak {a c : Char} (h : isBreak a = true)
    (hc : c ∈ ['.', '+', '-', 'e', 'E']) : a ≠ c := by
  rintro rfl
  revert h
  exact (by decide : ∀ c ∈ ['.', '+', '-', 'e', 'E'], ¬ isBreak c = true) a hc

/-- A point is in front of a text with breaks behind if it is in front of the text. -/
theorem ne_point_append (h : ∀ r, s ≠ '.' :: r) (hu : Breaks u) (r : List Char) :
    s ++ u ≠ '.' :: r := by
  cases s with
  | cons c s => simpa using fun hc => absurd (congrArg (· :: s) hc) (h s)
  | nil =>
      rintro rfl
      exact ne_of_isBreak (hu '.' rfl) (by decide) rfl

/-- The digits behind a point are the same in front of a break. -/
theorem places_extend (hu : Breaks u) (q : List Char × List Char) :
    places (extend u q) = extend u (places q) := by
  obtain ⟨ds, r⟩ := q
  by_cases h : ∃ r', r = '.' :: r'
  · obtain ⟨r, rfl⟩ := h
    obtain ⟨ht, hd⟩ := span_breaks isDecimal_of_isBreak r hu
    simp only [extend, List.cons_append, places, ht, hd]
  · have h : ∀ r', r ≠ '.' :: r' := fun r' e => h ⟨r', e⟩
    simp only [extend, places_of_ne h, places_of_ne (ne_point_append h hu)]

/-- The digits in front of an exponent are settled. -/
theorem settled_mantissa : mantissa.Settled := by
  intro s u hu
  by_cases h : ∃ r, s = '.' :: r
  · obtain ⟨r, rfl⟩ := h
    simp only [List.cons_append, mantissa, settled_digits r hu, Option.map_map]
    rfl
  · have h : ∀ r, s ≠ '.' :: r := fun r e => h ⟨r, e⟩
    rw [mantissa_of_ne h, mantissa_of_ne (ne_point_append h hu), settled_digits s hu,
      Option.map_map, Option.map_map]
    exact congrArg (Option.map · _) (funext (places_extend hu))

/-- So is a sign. -/
theorem optionalSign_extend (hu : Breaks u) (s : List Char) :
    optionalSign (s ++ u) = extend u (optionalSign s) := by
  cases s with
  | nil =>
      cases u with
      | nil => rfl
      | cons c u =>
          have h₁ := ne_of_isBreak (c := '+') (hu c rfl) (by decide)
          have h₂ := ne_of_isBreak (c := '-') (hu c rfl) (by decide)
          simp [optionalSign, extend, h₁, h₂]
  | cons c s =>
      simp only [List.cons_append]
      unfold optionalSign
      split <;> split <;> simp_all [extend]

/-- So is an exponent. -/
theorem exponent_extend (hu : Breaks u) (s : List Char) :
    exponent (s ++ u) = extend u (exponent s) := by
  cases s with
  | nil =>
      cases u with
      | nil => rfl
      | cons c u =>
          have h₁ := ne_of_isBreak (c := 'e') (hu c rfl) (by decide)
          have h₂ := ne_of_isBreak (c := 'E') (hu c rfl) (by decide)
          simp [exponent, extend, h₁, h₂]
  | cons c s =>
      simp only [exponent, List.cons_append, optionalSign_extend hu, extend,
        settled_digits (optionalSign s).2 hu]
      split
      · cases digits (optionalSign s).2 <;> rfl
      · rfl

/-- A number is settled. -/
theorem settled_number : number.Settled := by
  intro s u hu
  simp only [number, settled_mantissa s hu]
  cases mantissa s with
  | none => rfl
  | some q => simp [extend, exponent_extend hu]

/-! ### Texts in quotes -/

/-- A text in quotes is taken alike whatever follows. -/
theorem textIn_append {quote : Char} (hq : quote ≠ '\\') (u : List Char)
    (h : textIn quote s = some (t, r)) : textIn quote (s ++ u) = some (t, r ++ u) := by
  obtain ⟨b, hb, rfl, rfl⟩ := (textIn_eq_some hq).mp h
  exact (textIn_eq_some hq).mpr ⟨b, hb, rfl, List.append_assoc _ _ _⟩

/-- A text between quotes is taken alike, whatever stands behind it. -/
theorem quoted_append (u : List Char) (h : quoted s = some (t, r)) :
    quoted (s ++ u) = some (t, r ++ u) := by
  simp only [quoted, oneOf] at h ⊢
  cases hd : textIn '"' s with
  | some q =>
      rw [hd] at h
      obtain rfl := Option.some.inj h
      rw [textIn_append (by decide) u hd]
  | none =>
      rw [hd] at h
      cases hs : textIn '\'' s with
      | none => simp [hs] at h
      | some q =>
          rw [hs] at h
          obtain rfl := Option.some.inj h
          -- The other quote is at the front, so the first alternative still fails.
          have hd' : textIn '"' (s ++ u) = none := by
            cases s with
            | nil => cases hs
            | cons c s =>
                simp only [textIn, Option.ite_none_right_eq_some] at hs
                obtain ⟨rfl, -⟩ := hs
                rfl
          rw [hd', textIn_append (by decide) u hs]

end Token
end Trellis.Expr
