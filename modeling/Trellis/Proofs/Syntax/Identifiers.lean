import Trellis.Proofs.Syntax.Context
import Trellis.Expr.Evaluator

/-!
# Proofs — Syntax — Identifiers

Which identifiers are names (`identifier_reading`).

A reserved word ends where no word character follows.  A dollar sign is a character of identifiers,
but no word character: an identifier that starts with a reserved word and a dollar sign has that
word in front, and all others are names (`greedy_name_iff`).  So `in_$` is a name, `in$` is not, and
`not$x` is the denial of `$x` (`compileChars_not_dollar`).
-/

namespace Trellis.Expr

open Trellis.Text (isAsciiLetter isAsciiDigit isWord)

/-- A character of an identifier. -/
def isNameChar (c : Char) : Bool :=
  isAsciiLetter c || isAsciiDigit c || c = '_' || c = '$'

/-- ASCII letters, digits, underscores and dollar signs that do not start with a digit and are no
reserved word. -/
structure IsIdentifier (s : String) : Prop where
  nonempty : s ≠ ""
  chars : ∀ c ∈ s.toList, isNameChar c = true
  start : ∀ c ∈ s.toList.head?, isAsciiDigit c = false
  free : s ∉ Token.reserved

/-- Whether a text is an identifier is decided by its characters and by the reserved words. -/
theorem isIdentifier_iff {s : String} :
    IsIdentifier s ↔ s ≠ "" ∧ s.toList.all isNameChar = true ∧
      s.toList.head?.all (!isAsciiDigit ·) = true ∧ s ∉ Token.reserved := by
  rw [List.all_eq_true, Option.all_eq_true]
  constructor
  · rintro ⟨h, hc, hs, hf⟩
    exact ⟨h, hc, fun c hc => by simp [hs c hc], hf⟩
  · rintro ⟨h, hc, hs, hf⟩
    exact ⟨h, hc, fun c hc => by simpa using hs c hc, hf⟩

instance (s : String) : Decidable (IsIdentifier s) := decidable_of_iff _ isIdentifier_iff.symm

/-- No reserved word with a dollar sign behind it stands at the front. -/
def Unmarked (s : String) : Prop :=
  ∀ w ∈ Token.reserved, ¬ w.toList ++ ['$'] <+: s.toList

instance (s : String) : Decidable (Unmarked s) :=
  inferInstanceAs (Decidable (∀ w ∈ Token.reserved, ¬ w.toList ++ ['$'] <+: s.toList))

/-! ### Characters -/

/-- The only character of identifiers that is no word character is the dollar sign. -/
theorem isWord_of_isNameChar {c : Char} (h : isNameChar c = true) (hd : c ≠ '$') :
    isWord c = true := by
  simp only [isNameChar, isAsciiLetter, isAsciiDigit, Bool.or_eq_true, Bool.and_eq_true,
    decide_eq_true_eq, hd, or_false] at h
  have hascii : c.toNat < 128 := by
    simp only [Char.le_def, UInt32.le_iff_toNat_le] at h
    rcases h with ((h | h) | h) | rfl
    · exact Nat.lt_of_le_of_lt h.2 (by decide)
    · exact Nat.lt_of_le_of_lt h.2 (by decide)
    · exact Nat.lt_of_le_of_lt h.2 (by decide)
    · decide
  simpa [isWord, hascii, isAsciiLetter, isAsciiDigit] using h

/-- The characters of identifiers go on with names. -/
theorem continuesName_of_isNameChar {c : Char} (h : isNameChar c = true) :
    Token.continuesName c = true := by
  simp only [isNameChar, Token.continuesName, Token.startsName, Bool.or_eq_true] at h ⊢
  tauto

/-- Those that are no digits also begin them. -/
theorem startsName_of_isNameChar {c : Char} (h : isNameChar c = true)
    (hd : isAsciiDigit c = false) : Token.startsName c = true := by
  simpa [Token.continuesName, hd] using continuesName_of_isNameChar h

/-! ### Names -/

section Names

variable {s t x : String} {u : List Char} {e : Expr}

/-- An identifier has a reserved word in front only if a dollar sign ends that word. -/
theorem reservedWord_eq_none_iff (hs : IsIdentifier s) :
    Token.reservedWord s.toList = none ↔ Unmarked s := by
  constructor
  · rintro h w hw ⟨r, hr⟩
    have word : Token.word w s.toList = some (w.toList, '$' :: r) :=
      Token.word_eq_some.mpr ⟨rfl, by simp [← hr], rfl⟩
    exact Token.oneOf_ne_none (List.mem_map_of_mem hw) (by simp [word]) h
  · intro h
    cases hres : Token.reservedWord s.toList with
    | none => rfl
    | some q =>
        obtain ⟨t, r⟩ := q
        obtain ⟨w, hw, rfl, hr, hend⟩ := Token.mem_of_words hres
        cases r with
        | nil => exact absurd (String.toList_injective (by simpa using hr.symm) ▸ hw) hs.free
        | cons c r =>
            -- What ends a word within an identifier is a dollar sign.
            have hc : isNameChar c = true := hs.chars c (by simp [hr])
            have hdollar : c = '$' := by
              by_contra hne
              simp [Token.endsWord, isWord_of_isNameChar hc hne] at hend
            exact absurd ⟨r, by simp [hr, hdollar]⟩ (h w hw)

/-- An identifier is taken whole in front of a break. -/
theorem identifier_takes (hs : IsIdentifier s) (hu : Breaks u) :
    Token.identifier.Takes s.toList u := by
  have hne : s.toList ≠ [] := by simpa using hs.nonempty
  obtain ⟨c, r, hcr⟩ := List.exists_cons_of_ne_nil hne
  refine Token.identifier_eq_some.mpr ⟨⟨c, r, hcr, ?_, fun a ha => ?_⟩, rfl, fun a ha => ?_⟩
  · exact startsName_of_isNameChar (hs.chars c (by simp [hcr])) (hs.start c (by simp [hcr]))
  · exact continuesName_of_isNameChar (hs.chars a (by simp [hcr, ha]))
  · exact continuesName_of_isBreak (hu a ha)

/-- An identifier is a name in front of breaks, unless a reserved word with a dollar sign behind it
stands at its front. -/
theorem greedy_name_iff (hs : IsIdentifier s) (hu : Breaks u) :
    greedy .name s.toList u ↔ Unmarked s := by
  show Token.reservedWord (s.toList ++ u) = none ∧ Token.identifier.Takes s.toList u ↔ Unmarked s
  rw [Token.settled_reservedWord s.toList hu, Option.map_eq_none_iff, reservedWord_eq_none_iff hs]
  exact and_iff_left (identifier_takes hs hu)

/-- An identifier compiles to a name just if nothing in it is taken for a word. -/
theorem compileChars_name_iff (hs : IsIdentifier s) :
    compileChars s.toList = .ok (.var s) ↔ Unmarked s := by
  constructor
  · intro h
    exact (greedy_name_iff hs breaks_nil).mp (name_of_compileChars h breaks_nil)
  · intro h
    have := Reading.var ((greedy_name_iff hs breaks_nil).mpr h)
    rw [String.ofList_toList] at this
    exact compileChars_of_reading_nth (r := 9) this rfl

/-- A point ends a word, and no reserved word has one. -/
theorem reservedWord_point {t : List Char} (h : Token.reservedWord t = none) (u : List Char) :
    Token.reservedWord (t ++ '.' :: u) = none := by
  cases hres : Token.reservedWord (t ++ '.' :: u) with
  | none => rfl
  | some q =>
      obtain ⟨v, r⟩ := q
      obtain ⟨w, hw, rfl, hr, hend⟩ := Token.mem_of_words hres
      have absurd_word {r : List Char} (hr : t = w.toList ++ r) (hend : Token.endsWord r = true) :
          False :=
        Token.oneOf_ne_none (List.mem_map_of_mem hw)
          (by simp [Token.word_eq_some.mpr ⟨rfl, hr, hend⟩]) h
      rcases List.append_eq_append_iff.mp hr with ⟨a, ha, hpoint⟩ | ⟨a, ha, hrest⟩
      · cases a with
        | nil => exact (absurd_word (r := []) (by simpa using ha.symm) rfl).elim
        | cons c a =>
            obtain ⟨rfl, -⟩ := List.cons.inj hpoint
            have : ∀ w ∈ Token.reserved, '.' ∉ w.toList := by decide
            exact absurd (by simp [ha]) (this w hw)
      · refine (absurd_word ha ?_).elim
        cases a with
        | nil => rfl
        | cons c a => rwa [hrest] at hend

/-- A name is one in front of a point. -/
theorem greedy_name_point {t : List Char} (h : greedy .name t []) (u : List Char) :
    greedy .name t ('.' :: u) := by
  obtain ⟨hres, htakes⟩ := h
  rw [List.append_nil] at hres
  obtain ⟨hchars, -, -⟩ := Token.identifier_eq_some.mp htakes
  refine ⟨reservedWord_point hres u, Token.identifier_eq_some.mpr ⟨hchars, rfl, ?_⟩⟩
  rintro c ⟨⟩
  decide

/-- The member of a variable. -/
theorem compileChars_member (hx : compileChars x.toList = .ok (.var x))
    (hs : greedy .name s.toList []) :
    compileChars (x.toList ++ '.' :: s.toList) = .ok (.factor (.var x) [.member s]) := by
  have atom : Reading.At .atom x.toList (.var x) ('.' :: s.toList ++ []) := by
    simpa using Reading.var (greedy_name_point (name_of_compileChars hx breaks_nil) s.toList)
  have trailers : Reading (.many .nextTrailer) ('.' :: s.toList) [.member s] [] := by
    have member : Reading (.one .trailer) ('.' :: ([] ++ s.toList)) (.member s) [] := by
      simpa using Reading.member (gap_before (w := []) nofun (solid_of_greedy rfl hs) []) hs
    have hw : greedy .space [] ('.' :: s.toList ++ []) :=
      gap_before (w := []) nofun (solid_cons rfl) []
    simpa using Reading.cons (u := []) (Reading.nextTrailer hw member) (.nil _ [])
  exact compileChars_of_reading_nth (r := 8) (Reading.factor atom trailers) rfl

/-- A denial without white space behind it. -/
theorem compileChars_not_dollar (ht : IsIdentifier t) (hd : '$' ∈ t.toList.head?) :
    compileChars ("not".toList ++ t.toList) = .ok (.not (.var t)) := by
  obtain ⟨r, hr⟩ := List.head?_eq_some_iff.mp hd
  have clear : Unmarked t := by
    rintro w hw ⟨u, hu⟩
    have letters : ∀ w ∈ Token.reserved, w.toList.head?.all (· ≠ '$') ∧ w.toList ≠ [] := by decide
    obtain ⟨hhead, hne⟩ := letters w hw
    obtain ⟨c, v, hcv⟩ := List.exists_cons_of_ne_nil hne
    rw [hcv, hr, List.cons_append, List.cons_append, List.cons.injEq] at hu
    simp [hcv, hu.1] at hhead
  have var : Reading.At .negation t.toList (.var t) [] := by
    have := (Reading.var ((greedy_name_iff ht breaks_nil).mpr clear)).loosen
      (m := 3) (n := 9) (by decide)
    rwa [String.ofList_toList] at this
  have not : greedy .denial "not".toList ([] ++ (t.toList ++ [])) := by
    rw [List.nil_append, List.append_nil, hr]
    rfl
  have solid : Solid t.toList := hr ▸ solid_cons rfl
  exact compileChars_of_reading_nth (r := 3)
    (Reading.denial (w := []) not (gap_before (w := []) nofun solid []) var) rfl

end Names

/-- **Identifiers.**  An identifier is compiled to the variable of its name if and only if no
reserved word with a dollar sign behind it stands at its front.  Its value is then the one that the
scope gives to it, and it is a name behind a point and as the key of a dictionary as well.  Behind
the word `not`, an identifier that starts with a dollar sign is denied. -/
theorem identifier_reading {s : String} (hs : IsIdentifier s) :
    (compile s = .ok (.var s) ↔ Unmarked s) ∧
    (Unmarked s →
      (∀ (builtins scope : Scope) (position : Value),
        Expr.evaluation builtins scope position (.text s) =
          match scope.names builtins s with
          | some v => pure v
          | none   => throw (.template (.unbound s) position)) ∧
      (∀ x, compile x = .ok (.var x) →
        compile (x ++ "." ++ s) = .ok (.factor (.var x) [.member s])) ∧
      (∀ t e, compile t = .ok e →
        compile ("\x7b" ++ s ++ ":" ++ t ++ "\x7d") = .ok (.dict [(.text s, e)]))) ∧
    ('$' ∈ s.toList.head? → compile ("not" ++ s) = .ok (.not (.var s))) := by
  refine ⟨compileChars_name_iff hs, fun hclear => ⟨?_, ?_, ?_⟩, fun hd => ?_⟩
  · intro builtins scope position
    have hc : compile s = .ok (.var s) := (compileChars_name_iff hs).mpr hclear
    simp only [Expr.evaluation, Expr.source, Expr.evaluate, Expr.compiled, hc, Expr.evalIn,
      Expr.eval, Expr.valueOf, pure_bind]
    cases scope.names builtins s <;> rfl
  · intro x hx
    simpa [compile] using compileChars_member hx ((greedy_name_iff hs breaks_nil).mpr hclear)
  · intro t e ht
    have hc : compileChars s.toList = .ok (.var s) := (compileChars_name_iff hs).mpr hclear
    have hentry : ∀ q ∈ [(s, t, e)],
        compileChars q.1.toList = .ok (.var q.1) ∧ compileChars q.2.1.toList = .ok q.2.2 := by
      simpa using ⟨hc, ht⟩
    simpa [compile] using compileChars_dict hentry
  · simpa [compile] using compileChars_not_dollar hs hd

theorem identifier_reading_in_dollar :
    compile "in_$" = .ok (.var "in_$") ∧
    compile "x.in_$" = .ok (.factor (.var "x") [.member "in_$"]) ∧
    compile "\x7bin_$: []\x7d" = .ok (.dict [(.text "in_$", .list [])]) ∧
    compile "not$in_" = .ok (.not (.var "$in_")) := by
  have name : compile "x" = .ok (.var "x") := by cbv
  have list : compile " []" = .ok (.list []) := by cbv
  obtain ⟨hvar, hclear, -⟩ := identifier_reading (s := "in_$") (by decide)
  obtain ⟨-, hmember, hkey⟩ := hclear (by decide)
  obtain ⟨-, -, hnot⟩ := identifier_reading (s := "$in_") (by decide)
  exact ⟨hvar.mpr (by decide), hmember "x" name, hkey " []" (.list []) list, hnot rfl⟩

/-- Not every identifier is a variable. -/
theorem identifier_not_dollar :
    IsIdentifier "not$x" ∧ compile "not$x" = .ok (.not (.var "$x")) ∧
    compile "not$x" ≠ .ok (.var "not$x") := by
  have denied : compile "not$x" = .ok (.not (.var "$x")) := by cbv
  refine ⟨by decide, denied, fun h => ?_⟩
  rw [denied] at h
  cases h

end Trellis.Expr
