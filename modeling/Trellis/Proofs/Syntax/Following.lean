import Trellis.Proofs.Syntax.Lexicon

/-!
# Proofs — Syntax — Following

Which phrases go on with a text, told by its first character after white space.

* `rank c`: the tightness of the operators that start with `c`.
* `Follows n k`: no operator tighter than `n` goes on with `k`.
* `follows_one`: a phrase that goes on with another starts with an operator of its rank.
* `Tree.first_of_chain`: an operand starts with a lexeme that no rule for a looser level takes.
-/

namespace Trellis.Expr

open Trellis.Text (isSpace isDecimal)

/-! ### Ranks -/

/-- The first characters of operators, from the loosest to the tightest. -/
def operatorStarts : List (List Char) :=
  [[')', ']', '\x7d'], [',', ':'], ['?'], ['|', 'o'], ['&', 'a'], ['=', '!', '<', '>', 'n', 'i'],
    ['+', '-'], ['*', '/', '%'], ['(', '[', '.']]

/-- The tightness of the operators that start with a character; nine if none does. -/
def rank (c : Char) : Nat := operatorStarts.findIdx (·.contains c)

/-- No operator tighter than `n` goes on with `k`. -/
def Follows (n : Nat) (k : List Char) : Prop :=
  ∀ c ∈ (k.dropWhile isSpace).head?, rank c ≤ n

/-- The rank of the operator that a phrase starts with, for phrases that go on with another. -/
def Phrase.rank : Phrase → Nat
  | nextItem _       => 1
  | branches         => 2
  | operand .disj    => 3
  | operand .conj    => 4
  | step .comparison => 5
  | step .sum        => 6
  | step .product    => 7
  | nextTrailer      => 8
  | _                => 0

/-- The rank of the operators that may follow a level. -/
def Level.bound : Level → Nat
  | expr | choice      => 1
  | logic .disj        => 2
  | logic .conj        => 3
  | negation           => 4
  | chain .comparison  => 4
  | chain .sum         => 5
  | chain .product     => 6
  | unary | factor     => 7
  | atom               => 8

/-- The rank of the operators that may follow a phrase. -/
def Phrase.bound : Phrase → Nat
  | level l             => l.bound
  | branches            => 1
  | operand c           => c.operand.bound
  | step i              => i.operand.bound
  | nextTrailer         => 8
  | trailer             => 8
  | series _            => 0
  | nextItem p          => p.bound
  | pair                => 1
  | key                 => 1

/-- The phrases that may be repeated behind another. -/
def Phrase.continues : Phrase → Bool
  | operand _ | step _ | nextTrailer => true
  | nextItem p                       => p.isItem
  | _                                => false

/-- The rank of the operators that may follow a form. -/
def Form.bound : Form → Nat
  | one p                  => p.bound
  | many p                 => p.rank - 1
  | perhaps p              => p.rank - 1

variable {n m : Nat} {k : List Char}

/-- What closes at a rank closes at every higher one. -/
theorem Follows.mono (h : Follows n k) (hn : n ≤ m) : Follows m k :=
  fun c hc => Nat.le_trans (h c hc) hn

/-- The end closes at every rank. -/
theorem follows_nil : Follows n [] := nofun

/-- A character closes at the ranks that are not below its own. -/
theorem follows_cons {c : Char} (hc : isSpace c = false) : Follows n (c :: k) ↔ rank c ≤ n := by
  simp [Follows, hc]

/-- White space changes nothing. -/
theorem follows_append {w : List Char} (hw : ∀ c ∈ w, isSpace c = true) :
    Follows n (w ++ k) ↔ Follows n k := by
  simp only [Follows, List.dropWhile_append_of_pos hw]

/-- A text that an operator follows starts with white space or an operator. -/
theorem Follows.head (h : Follows n k) : ∀ c ∈ k.head?, isSpace c = true ∨ rank c ≤ n := by
  cases k with
  | nil => nofun
  | cons a k =>
      intro c hc
      obtain rfl := Option.some.inj hc
      by_cases ha : isSpace a = true
      · exact .inl ha
      · exact .inr ((follows_cons (by simpa using ha)).mp h)

/-- The first characters of the operators of a level have its rank and are no white space. -/
theorem Tier.rank_of_starts {i : Tier} {c : Char} (h : i.starts c = true) :
    rank c = (Phrase.step i).rank ∧ isSpace c = false := by
  cases i with
  | comparison =>
      simp only [starts, List.contains_iff_mem, List.mem_cons, List.not_mem_nil, or_false] at h
      rcases h with rfl | rfl | rfl | rfl | rfl | rfl <;> decide
  | sum =>
      simp only [starts, List.contains_iff_mem, List.mem_cons, List.not_mem_nil, or_false] at h
      rcases h with rfl | rfl <;> decide
  | product =>
      simp only [starts, List.contains_iff_mem, List.mem_cons, List.not_mem_nil, or_false] at h
      rcases h with rfl | rfl | rfl <;> decide

/-- A connective begins with a character of its rank. -/
theorem Connective.rank_of_starts {o : Connective} {c : Char} (h : o.starts c = true) :
    rank c = (Phrase.operand o).rank ∧ isSpace c = false := by
  cases o with
  | disj =>
      simp only [starts, Token.startsDisjunctive, List.contains_iff_mem, List.mem_cons,
        List.not_mem_nil, or_false] at h
      rcases h with rfl | rfl <;> decide
  | conj =>
      simp only [starts, Token.startsConjunctive, List.contains_iff_mem, List.mem_cons,
        List.not_mem_nil, or_false] at h
      rcases h with rfl | rfl <;> decide

/-! ### Phrases that go on with another -/

/-- Items end where a comma, or anything that closes, stands. -/
theorem Phrase.bound_of_isItem {p : Phrase} (hp : p.isItem = true) : p.bound = 1 := by
  unfold isItem at hp
  split at hp
  · rfl
  · rfl
  · cases hp

/-- What is repeated does not make part of itself what is behind. -/
theorem Phrase.rank_of_continues {p : Phrase} (hp : p.continues = true) :
    0 < p.rank ∧ p.rank ≤ p.bound := by
  cases p with
  | operand c => cases c <;> decide
  | step i => cases i <;> decide
  | nextTrailer => decide
  | nextItem p => exact ⟨Nat.one_pos, Nat.le_of_eq (bound_of_isItem hp).symm⟩
  | _ => cases hp

/-- A phrase that goes on with another starts with an operator of its rank. -/
theorem follows_one {p : Phrase} (d : Tree (.one p)) (hp : 0 < p.rank) (h : d.Reads greedy k)
    (k' : List Char) : Follows p.rank (d.spelled ++ k') := by
  cases d with
  | branches w₁ w₂ yes w₃ w₄ no =>
      obtain ⟨hw, -⟩ := Tree.reads_branches.mp h
      rw [Tree.spelled_branches, List.append_assoc]
      exact (follows_append (greedy_space.mp hw).1).mpr ((follows_cons rfl).mpr (by decide))
  -- behind the white space stands the operator, whose first character has the rank
  | operand c w t w' e =>
      obtain ⟨hw, ht, -⟩ := Tree.reads_operand.mp h
      obtain ⟨a, t', rfl, ha⟩ := greedy_starts (by simp) ht
      obtain ⟨hr, hs⟩ := Connective.rank_of_starts ha
      rw [Tree.spelled_operand, List.append_assoc]
      exact (follows_append (greedy_space.mp hw).1).mpr ((follows_cons hs).mpr (Nat.le_of_eq hr))
  | step i w o t w' e =>
      obtain ⟨hw, ht, -⟩ := Tree.reads_step.mp h
      obtain ⟨a, t', rfl, ha⟩ := greedy_starts (by simp) ht
      obtain ⟨hr, hs⟩ := Tier.rank_of_starts ha
      rw [Tree.spelled_step, List.append_assoc]
      exact (follows_append (greedy_space.mp hw).1).mpr ((follows_cons hs).mpr (Nat.le_of_eq hr))
  | nextTrailer w t =>
      obtain ⟨hw, -⟩ := Tree.reads_nextTrailer.mp h
      rw [Tree.spelled_nextTrailer, List.append_assoc]
      refine (follows_append (greedy_space.mp hw).1).mpr ?_
      cases t with
      | call w es w' => exact (follows_cons rfl).mpr (by decide)
      | index e => exact (follows_cons rfl).mpr (by decide)
      | member w n => exact (follows_cons rfl).mpr (by decide)
  | nextItem p a => exact (follows_cons rfl).mpr (Nat.le_refl 1)
  | _ => cases hp

/-- What follows a repetition follows its items, and so does the next item. -/
theorem follows_many {p : Phrase} (d : Tree (.many p)) (hp : 0 < p.rank) (h : d.Reads greedy k)
    (hk : Follows n k) (hn : p.rank ≤ n) : Follows n (d.spelled ++ k) := by
  cases d with
  | nil => exact hk
  | cons _ a as =>
      rw [Tree.spelled_cons, List.append_assoc]
      exact (follows_one a hp (Tree.reads_cons.mp h).1 _).mono hn

/-- So it is with a part that may be absent. -/
theorem follows_perhaps {p : Phrase} (d : Tree (.perhaps p)) (hp : 0 < p.rank)
    (h : d.Reads greedy k) (hk : Follows n k) (hn : p.rank ≤ n) : Follows n (d.spelled ++ k) := by
  cases d with
  | absent => exact hk
  | present _ a => exact (follows_one a hp h _).mono hn

/-- A closing symbol, or one between two parts, follows the part before it. -/
theorem follows_symbol {c : Char} {w : List Char} (hw : greedy .space w (c :: k))
    (hc : isSpace c = false) (hn : rank c ≤ n) : Follows n (w ++ c :: k) :=
  (follows_append (greedy_space.mp hw).1).mpr ((follows_cons hc).mpr hn)

/-- What ends a connective's operands ends each of them. -/
theorem follows_operands {c : Connective} (es : Tree (.many (.operand c)))
    (h : es.Reads greedy k) (hk : Follows (Level.logic c).bound k) :
    Follows c.operand.bound (es.spelled ++ k) := by
  cases c with
  | disj => exact follows_many es (by decide) h (hk.mono (by decide)) (by decide)
  | conj => exact follows_many es (by decide) h (hk.mono (by decide)) (by decide)

/-- What ends a chain of operators ends each operand. -/
theorem follows_steps {i : Tier} (ss : Tree (.many (.step i))) (h : ss.Reads greedy k)
    (hk : Follows (Level.chain i).bound k) : Follows i.operand.bound (ss.spelled ++ k) := by
  cases i with
  | comparison => exact follows_many ss (by decide) h (hk.mono (by decide)) (by decide)
  | sum => exact follows_many ss (by decide) h (hk.mono (by decide)) (by decide)
  | product => exact follows_many ss (by decide) h (hk.mono (by decide)) (by decide)

/-- What ends a factor ends its atom. -/
theorem follows_trailers (ts : Tree (.many .nextTrailer)) (h : ts.Reads greedy k)
    (hk : Follows Level.factor.bound k) : Follows Level.atom.bound (ts.spelled ++ k) :=
  follows_many ts (by decide) h (hk.mono (by decide)) (by decide)

/-- What ends a choice ends its test. -/
theorem follows_branches (b : Tree (.perhaps .branches)) (h : b.Reads greedy k)
    (hk : Follows Level.choice.bound k) :
    Follows (Level.logic .disj).bound (b.spelled ++ k) :=
  follows_perhaps b (by decide) h (hk.mono (by decide)) (by decide)

/-- What ends a series ends each item. -/
theorem follows_items {p : Phrase} (hp : p.isItem = true) (as : Tree (.many (.nextItem p)))
    (h : as.Reads greedy k) (hk : Follows 0 k) : Follows p.bound (as.spelled ++ k) := by
  rw [Phrase.bound_of_isItem hp]
  exact follows_many as Nat.one_pos h (hk.mono (Nat.zero_le 1)) (Nat.le_refl 1)

/-! ### First lexemes -/

/-- What holds of no blank does not hold of a blank character. -/
theorem isBlank_eq_false {q : Char → Bool} {c : Char}
    (h : ∀ n ∈ Text.spaceCodes ++ [0x1c, 0x1d, 0x1e, 0x1f], q (Char.ofNat n) = false)
    (hc : q c = true) : Text.isBlank c = false := by
  refine Bool.eq_false_iff.mpr fun hb => ?_
  have hmem : c.toNat ∈ Text.spaceCodes ++ [0x1c, 0x1d, 0x1e, 0x1f] := by
    simp only [Text.isBlank, Bool.or_eq_true, Bool.and_eq_true, decide_eq_true_eq] at hb
    rcases hb with hs | hn
    · exact List.mem_append_left _ (Text.toNat_mem_spaceCodes hs)
    · refine List.mem_append_right _ ?_
      simp only [List.mem_cons, List.not_mem_nil, or_false]
      omega
  have := h _ hmem
  rw [Char.ofNat_toNat, hc] at this
  cases this

/-- The kinds of lexemes that are neither white space nor a symbol. -/
def Lexeme.isToken : Lexeme → Bool
  | space | symbol _ => false
  | _                => true

/-- No token begins with white space. -/
theorem Lexeme.starts_not_blank {x : Lexeme} (hx : x.isToken = true) {c : Char}
    (hc : x.starts c = true) : Text.isBlank c = false := by
  cases x with
  | space | symbol => cases hx
  | number => exact isBlank_eq_false (by decide +kernel) hc
  | text => exact isBlank_eq_false (by decide) hc
  | truth => exact isBlank_eq_false (by decide) hc
  | null => exact isBlank_eq_false (by decide) hc
  | name => exact isBlank_eq_false (by decide) hc
  | denial => exact isBlank_eq_false (by decide) hc
  | connective c => cases c <;> exact isBlank_eq_false (by decide) hc
  | sign i o => exact isBlank_eq_false (q := i.starts) (by cases i <;> decide) hc

/-- A token has a character that is no white space. -/
theorem greedy_not_blank {x : Lexeme} {t r : List Char} (hx : x.isToken = true)
    (h : greedy x t r) : ∃ c ∈ t, Text.isBlank c = false := by
  obtain ⟨c, t, rfl, hc⟩ := greedy_starts (by rintro rfl; cases hx) h
  exact ⟨c, List.mem_cons_self, Lexeme.starts_not_blank hx hc⟩

/-- A phrase takes more than blanks. -/
theorem Tree.exists_not_blank {f : Form} (d : Tree f) {p : Phrase} (hf : f = .one p)
    (h : d.Reads greedy k) : ∃ c ∈ d.spelled, Text.isBlank c = false := by
  induction d generalizing p k with
  | expr w e w' ih =>
      obtain ⟨-, he, -⟩ := reads_expr.mp h
      obtain ⟨c, hc, hb⟩ := ih rfl he
      exact ⟨c, by simp [hc], hb⟩
  | choice e _ ih | logic _ e _ ih _ | chain _ e _ ih _ | factor e _ ih _ | series _ _ e _ ih _ =>
      obtain ⟨c, hc, hb⟩ := ih rfl (Lexicon.allows_append.mp h).1
      exact ⟨c, by simp [hc], hb⟩
  | comparison e ih | single e ih => exact ih rfl h
  | branches => exact ⟨'?', by simp, by decide⟩
  | minus => exact ⟨'-', by simp, by decide⟩
  | call | inner => exact ⟨'(', by simp, by decide⟩
  | index | list => exact ⟨'[', by simp, by decide⟩
  | member => exact ⟨'.', by simp, by decide⟩
  | dict => exact ⟨'\x7b', by simp, by decide⟩
  | nextItem => exact ⟨',', by simp, by decide⟩
  | pair => exact ⟨':', by simp, by decide⟩
  -- the lexeme that makes the phrase what it is has such a character
  | operand _ _ t _ _ =>
      obtain ⟨-, ht, -⟩ := reads_operand.mp h
      obtain ⟨c, hc, hb⟩ := greedy_not_blank rfl ht
      exact ⟨c, by simp [hc], hb⟩
  | step _ _ _ t _ _ =>
      obtain ⟨-, ht, -⟩ := reads_step.mp h
      obtain ⟨c, hc, hb⟩ := greedy_not_blank rfl ht
      exact ⟨c, by simp [hc], hb⟩
  | denial t _ _ _ =>
      obtain ⟨c, hc, hb⟩ := greedy_not_blank rfl (reads_denial.mp h).1
      exact ⟨c, by simp [hc], hb⟩
  | nextTrailer w t ih =>
      obtain ⟨c, hc, hb⟩ := ih rfl (reads_nextTrailer.mp h).2
      exact ⟨c, by simp [hc], hb⟩
  | number t | text t | truth t | null t | var t | textKey t | numberKey t | nameKey t =>
      obtain ⟨c, hc, hb⟩ := greedy_not_blank rfl h.1
      exact ⟨c, by simp [hc], hb⟩
  | absent | present | nil | cons => cases hf

/-- A phrase takes something. -/
theorem Tree.spelled_ne_nil {p : Phrase} (d : Tree (.one p)) (h : d.Reads greedy k) :
    d.spelled ≠ [] := by
  obtain ⟨c, hc, -⟩ := d.exists_not_blank rfl h
  exact List.ne_nil_of_mem hc

/-- The lexemes that an atom can start with. -/
def Lexeme.opensAtom : Lexeme → Bool
  | number | text | truth | null | name => true
  | symbol c                            => ['(', '[', '\x7b'].contains c
  | _                                   => false

/-- The lexemes that a comparison can start with. -/
def Lexeme.opensComparison : Lexeme → Bool
  | symbol c => ['(', '[', '\x7b', '-'].contains c
  | x        => x.opensAtom

/-- The lexemes that an expression without white space around it can start with. -/
def Lexeme.opensChoice : Lexeme → Bool
  | denial => true
  | x      => x.opensComparison

/-- The first lexeme of a writing is of a kind. -/
def Writing.StartsWith (ls : Writing) (q : Lexeme → Bool) : Prop :=
  ∃ x t ls', ls = (x, t) :: ls' ∧ q x = true

/-- What starts with a lexeme of a kind starts with one of any wider kind. -/
theorem Writing.StartsWith.mono {ls : Writing} {q q' : Lexeme → Bool} (h : ls.StartsWith q)
    (hq : ∀ x, q x = true → q' x = true) : ls.StartsWith q' := by
  obtain ⟨x, t, ls, rfl, hx⟩ := h
  exact ⟨x, t, ls, rfl, hq x hx⟩

theorem Lexeme.opensComparison_of_opensAtom (x : Lexeme) (hx : x.opensAtom = true) :
    x.opensComparison = true := by
  cases x with
  | symbol c =>
      simp only [opensAtom, opensComparison, List.contains_iff_mem] at hx ⊢
      exact List.mem_append_left ['-'] hx
  | _ => exact hx

theorem Lexeme.opensChoice_of_opensComparison (x : Lexeme) (hx : x.opensComparison = true) :
    x.opensChoice = true := by
  cases x <;> first | exact hx | rfl

/-- What is written behind does not change the start. -/
theorem Writing.StartsWith.append {ls : Writing} {q : Lexeme → Bool} (h : ls.StartsWith q)
    (ls' : Writing) : StartsWith (ls ++ ls') q := by
  obtain ⟨x, t, ls, rfl, hx⟩ := h
  exact ⟨x, t, ls ++ ls', rfl, hx⟩

namespace Tree

/-- Atoms start with a literal, a name or an opening bracket. -/
theorem first_of_atom (d : Tree (.one (.level .atom))) : d.lexemes.StartsWith Lexeme.opensAtom := by
  cases d <;> exact ⟨_, _, _, rfl, rfl⟩

theorem first_of_factor (d : Tree (.one (.level .factor))) :
    d.lexemes.StartsWith Lexeme.opensAtom := by
  cases d with
  | factor a ts => exact a.first_of_atom.append ts.lexemes

/-- Where a comparison may begin, a minus sign may. -/
theorem first_of_unary (d : Tree (.one (.level .unary))) :
    d.lexemes.StartsWith Lexeme.opensComparison := by
  cases d with
  | minus w e => exact ⟨_, _, _, rfl, rfl⟩
  | single e => exact e.first_of_factor.mono Lexeme.opensComparison_of_opensAtom

/-- Operators stand behind their first operand. -/
theorem first_of_chain {i : Tier} (d : Tree (.one (.level (.chain i)))) :
    d.lexemes.StartsWith Lexeme.opensComparison := by
  have product (d : Tree (.one (.level (.chain .product)))) :
      d.lexemes.StartsWith Lexeme.opensComparison := by
    cases d with
    | chain _ e ss => exact (first_of_unary e).append ss.lexemes
  have sum (d : Tree (.one (.level (.chain .sum)))) :
      d.lexemes.StartsWith Lexeme.opensComparison := by
    cases d with
    | chain _ e ss => exact (product e).append ss.lexemes
  cases i with
  | product => exact product d
  | sum => exact sum d
  | comparison =>
      cases d with
      | chain _ e ss => exact (sum e).append ss.lexemes

/-- A choice may also begin with a denial. -/
theorem first_of_choice (d : Tree (.one (.level .choice))) :
    d.lexemes.StartsWith Lexeme.opensChoice := by
  have negation (d : Tree (.one (.level .negation))) :
      d.lexemes.StartsWith Lexeme.opensChoice := by
    cases d with
    | denial t w e => exact ⟨_, _, _, rfl, rfl⟩
    | comparison e => exact e.first_of_chain.mono Lexeme.opensChoice_of_opensComparison
  have conj (d : Tree (.one (.level (.logic .conj)))) :
      d.lexemes.StartsWith Lexeme.opensChoice := by
    cases d with
    | logic _ e es => exact (negation e).append es.lexemes
  have disj (d : Tree (.one (.level (.logic .disj)))) :
      d.lexemes.StartsWith Lexeme.opensChoice := by
    cases d with
    | logic _ e es => exact (conj e).append es.lexemes
  cases d with
  | choice test b => exact (disj test).append b.lexemes

end Tree

/-! ### First characters -/

namespace Token

variable {c : Char}

/-- What holds of no character of a list does not hold of a character in it. -/
theorem not_of_contains {q : Char → Bool} {l : List Char} (h : ∀ a ∈ l, q a = false)
    (hc : l.contains c = true) : q c = false :=
  h c (List.contains_iff_mem.mp hc)

/-- What holds of no character of a list holds of characters outside of it. -/
theorem not_contains {q : Char → Bool} {l : List Char} (h : ∀ a ∈ l, q a = false)
    (hc : q c = true) : l.contains c = false := by
  rw [List.contains_eq_mem, decide_eq_false_iff_not]
  intro hmem
  rw [h c hmem] at hc
  cases hc

/-- In ASCII, no character begins both a name and a number. -/
theorem startsNumber_of_startsName_ascii :
    ∀ n < 128, startsName (Char.ofNat n) = true → startsNumber (Char.ofNat n) = false := by
  decide +kernel

/-- A character that begins a name is in ASCII, or is one of three that are case variants of letters
in it. -/
theorem startsName_cases (h : startsName c = true) :
    c.toNat < 128 ∨ c.toNat = 0x130 ∨ c.toNat = 0x17f ∨ c.toNat = 0x212a := by
  simp only [startsName, Text.isAsciiLetter, isCaseVariant, Bool.or_eq_true, Bool.and_eq_true,
    decide_eq_true_eq, Char.le_def, UInt32.le_iff_toNat_le] at h
  rcases h with (((⟨-, h⟩ | ⟨-, h⟩) | rfl) | rfl) | (h | h) | h
  · exact .inl (Nat.lt_of_le_of_lt h (by decide))
  · exact .inl (Nat.lt_of_le_of_lt h (by decide))
  · exact .inl (by decide)
  · exact .inl (by decide)
  · exact .inr (.inl h)
  · exact .inr (.inr (.inl h))
  · exact .inr (.inr (.inr h))

/-- Names do not start like numbers. -/
theorem startsNumber_of_startsName (h : startsName c = true) : startsNumber c = false := by
  have number (n : Nat) (hn : c.toNat = n) (hf : startsNumber (Char.ofNat n) = false) :
      startsNumber c = false := by
    rwa [← hn, Char.ofNat_toNat] at hf
  rcases startsName_cases h with hc | hc | hc | hc
  · refine number _ rfl (startsNumber_of_startsName_ascii _ hc ?_)
    rwa [Char.ofNat_toNat]
  · exact number _ hc (by decide)
  · exact number _ hc (by decide)
  · exact number _ hc (by decide)

end Token

/-- Where no reserved word is taken, none of them is. -/
theorem Token.word_eq_none_of_reservedWord {w : String} (hw : w ∈ Token.reserved) {s : List Char}
    (h : Token.reservedWord s = none) : Token.word w s = none := by
  cases hs : Token.word w s with
  | none => rfl
  | some q =>
      have hne : Token.word w s ≠ none := by
        rw [hs]
        nofun
      exact absurd h (Token.oneOf_ne_none (List.mem_map_of_mem hw) hne)

/-- What holds of no first character of a kind of lexeme does not hold where such a lexeme is. -/
theorem greedy_head {x : Lexeme} {t r : List Char} (hx : x ≠ .space) (h : greedy x t r)
    {q : Char → Bool} (hq : ∀ c, x.starts c = true → q c = false) :
    ∀ c ∈ (t ++ r).head?, q c = false := by
  obtain ⟨c, t', rfl, hc⟩ := greedy_starts hx h
  intro a ha
  obtain rfl := Option.some.inj ha
  exact hq c hc

/-- What a comparison starts with is no denial. -/
theorem denial_eq_none {ls : Writing} (hx : ls.StartsWith Lexeme.opensComparison)
    (h : greedy.Allows ls k) : Token.denial (ls.text ++ k) = none := by
  obtain ⟨x, t, ls, rfl, hx⟩ := hx
  rw [Lexicon.allows_cons] at h
  rw [Writing.text_cons, List.append_assoc]
  -- most lexemes start with other characters than a denial does
  have other (hs : x ≠ .space) (hd : ∀ c, x.starts c = true → Token.startsDenial c = false) :
      Token.denial (t ++ (Writing.text ls ++ k)) = none :=
    Token.starts_denial.eq_none Token.exact_denial (greedy_head hs h.1 hd)
  cases x with
  | number => exact other (by nofun) fun c hc => Token.not_contains (by decide) hc
  | text => exact other (by nofun) fun c hc => Token.not_of_contains (by decide) hc
  | truth => exact other (by nofun) fun c hc => Token.not_of_contains (by decide) hc
  | symbol a =>
      obtain rfl : t = [a] := h.1
      simp only [Lexeme.opensComparison, List.contains_iff_mem, List.mem_cons, List.not_mem_nil,
        or_false] at hx
      rcases hx with rfl | rfl | rfl | rfl <;> rfl
  | null =>
      obtain ⟨w, hw, rfl, -⟩ := Token.mem_of_words h.1
      simp only [List.mem_cons, List.not_mem_nil, or_false] at hw
      rcases hw with rfl | rfl | rfl <;> rfl
  -- a name may start as the word `not` does, but it is not a reserved word
  | name =>
      refine Token.oneOf_eq_none fun p hp => ?_
      simp only [List.mem_cons, List.not_mem_nil, or_false] at hp
      rcases hp with rfl | rfl
      · exact Token.word_eq_none_of_reservedWord (by decide) h.1.1
      · refine (Token.starts_exactly (q := (· == '!')) rfl).eq_none (Token.exact_exactly _) ?_
        exact greedy_head (by nofun) h.1 fun c hc =>
          beq_eq_false_iff_ne.mpr fun e => absurd (e ▸ hc) (by decide)
  | _ => cases hx

/-- What a factor starts with is no minus sign. -/
theorem ne_minus {ls : Writing} (hx : ls.StartsWith Lexeme.opensAtom) (h : greedy.Allows ls k) :
    ∀ c ∈ (ls.text ++ k).head?, c ≠ '-' := by
  obtain ⟨x, t, ls, rfl, hx⟩ := hx
  rw [Lexicon.allows_cons] at h
  rw [Writing.text_cons, List.append_assoc]
  have starts : x ≠ .space ∧ x.starts '-' = false := by
    cases x with
    | symbol a =>
        simp only [Lexeme.opensAtom, List.contains_iff_mem, List.mem_cons, List.not_mem_nil,
          or_false] at hx
        rcases hx with rfl | rfl | rfl <;> exact ⟨nofun, by decide⟩
    | number | text | truth | null | name => exact ⟨nofun, by decide⟩
    | _ => cases hx
  intro c hc
  have := greedy_head (q := (· == '-')) starts.1 h.1
    (fun a ha => beq_eq_false_iff_ne.mpr fun e => by rw [e, starts.2] at ha; cases ha) c hc
  exact beq_eq_false_iff_ne.mp this

/-- An expression without white space around it starts with no blank. -/
theorem Tree.head_not_blank (d : Tree (.one (.level .choice))) (h : d.Reads greedy k) :
    ∃ c s, d.spelled = c :: s ∧ Text.isBlank c = false := by
  obtain ⟨x, t, ls, hls, hx⟩ := d.first_of_choice
  rw [Reads, hls, Lexicon.allows_cons] at h
  have hne : x ≠ .space := by
    rintro rfl
    cases hx
  obtain ⟨c, t, rfl, hc⟩ := greedy_starts hne h.1
  refine ⟨c, t ++ Writing.text ls, by rw [spelled, hls]; rfl, ?_⟩
  cases x with
  | symbol a =>
      obtain rfl := beq_iff_eq.mp hc
      simp only [Lexeme.opensChoice, Lexeme.opensComparison, List.contains_iff_mem, List.mem_cons,
        List.not_mem_nil, or_false] at hx
      rcases hx with rfl | rfl | rfl | rfl <;> decide
  | space => cases hx
  | _ => exact Lexeme.starts_not_blank rfl hc

/-- What is derived for a choice begins with no white space. -/
theorem Tree.head_not_space (d : Tree (.one (.level .choice))) (h : d.Reads greedy k) :
    ∃ c s, d.spelled = c :: s ∧ isSpace c = false := by
  obtain ⟨c, s, hs, hc⟩ := d.head_not_blank h
  refine ⟨c, s, hs, Bool.eq_false_iff.mpr fun h => ?_⟩
  rw [Text.isBlank_of_isSpace h] at hc
  cases hc

end Trellis.Expr
