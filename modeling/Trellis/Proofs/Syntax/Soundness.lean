import Trellis.Proofs.Syntax.Lexicon

/-!
# Proofs — Syntax — Soundness

What a rule finds is the image of a derivation of the text that it takes (`Sound`).  One lemma for
each combinator and each rule, and from them `sound_rules`, by induction on the depth.
-/

namespace Trellis.Expr

open Matcher

/-- What the matcher finds is the image of a derivation, whose text is what the matcher takes and
whose lexemes are written as the matchers take them. -/
def Sound {f : Form} (m : Matcher f.Value) : Prop :=
  ∀ ⦃c a c'⦄, Finds m c a c' →
    ∃ d : Tree f, d.image = a ∧ c.rest = d.spelled ++ c'.rest ∧ d.Reads greedy c'.rest

variable {c c' : Cursor} {p : Phrase} {f : Form}

/-! ### Lexemes -/

/-- A gap is found as white space that cannot go on. -/
theorem finds_gap {u : Unit} (h : Finds Rule.gap c u c') :
    ∃ w, c.rest = w ++ c'.rest ∧ greedy .space w c'.rest := by
  simp only [Rule.gap, finds_bind, finds_token, finds_pure] at h
  obtain ⟨w, -, ⟨r, hp, rfl⟩, -, rfl⟩ := h
  exact ⟨w, Token.exact_run _ hp, (Token.exact_run _).takes hp⟩

/-- A symbol is found where it stands. -/
theorem finds_symbol {u : Unit} {s : String} {x : Char} (hs : s.toList = [x])
    (h : Finds (Rule.symbol s) c u c') : c.rest = x :: c'.rest := by
  simp only [Rule.symbol, finds_bind, finds_token, finds_pure, hs] at h
  obtain ⟨w, -, ⟨r, hp, rfl⟩, -, rfl⟩ := h
  exact (Token.exactly_eq_some.mp hp).2

/-- A token is found as its pattern takes it. -/
theorem finds_lexeme {q : Pattern} (hq : q.Exact) {t : List Char} (h : Finds (token q) c t c') :
    c.rest = t ++ c'.rest ∧ q.Takes t c'.rest := by
  obtain ⟨r, hp, rfl⟩ := finds_token.mp h
  exact ⟨hq hp, hq.takes hp⟩

/-- A name is not reserved where no reserved word stands. -/
theorem found_reservedName :
    (Rule.reservedName c).found = none ↔ Token.reservedWord c.rest = none := by
  simp only [Rule.reservedName, found_named, found_bind, found_token, found_pure]
  cases Token.reservedWord c.rest <;> simp

/-- A name is found as a lexeme that is no reserved word. -/
theorem finds_name {n : String} (h : Finds Rule.name c n c') :
    ∃ t, n = String.ofList t ∧ c.rest = t ++ c'.rest ∧ greedy .name t c'.rest := by
  simp only [Rule.name, finds_named, finds_bind, finds_absent, finds_pure] at h
  obtain ⟨-, c₁, ⟨hres, rfl⟩, t, c₂, ht, rfl, rfl⟩ := h
  obtain ⟨hs, ht⟩ := finds_lexeme Token.exact_identifier ht
  refine ⟨t, rfl, hs, ?_, ht⟩
  rw [← hs]
  exact found_reservedName.mp hres

/-- An operator is found as the first sign that fits. -/
theorem finds_operator {i : Tier} {o : Operator} (h : Finds (Rule.operator i.signs) c o c') :
    ∃ t, c.rest = t ++ c'.rest ∧ greedy (.sign i o) t c'.rest := by
  rw [Finds, found_operator] at h
  obtain ⟨⟨o, t, r⟩, hs, e⟩ := Option.map_eq_some_iff.mp h
  cases e
  obtain ⟨p, hmem, hp⟩ := mem_of_firstSign hs
  have ht : c.rest = t ++ r := (i.exact_starts _ hmem).1 hp
  refine ⟨t, ht, ?_⟩
  show Token.firstSign i.signs (t ++ r) = _
  rw [← ht]
  exact hs

/-! ### Combinators -/

/-- A name changes nothing of what is found. -/
theorem Sound.named {m : Matcher f.Value} (h : Sound m) : Sound (named m) :=
  fun _ _ _ hf => h (finds_named.mp hf)

/-- What the first of sound matchers finds is derived. -/
theorem Sound.firstOf {ms : List (Matcher f.Value)} (h : ∀ m ∈ ms, Sound m) :
    Sound (firstOf ms) := by
  intro c a c' hf
  obtain ⟨m, hmem, hm⟩ := finds_firstOf hf
  exact h m hmem hm

/-- What may be absent is derived as present or as absent. -/
theorem Sound.optional {m : Matcher p.Value} (h : Sound (f := .one p) m) :
    Sound (f := .perhaps p) (optional m) := by
  intro c a c' hf
  obtain ⟨rfl, rfl⟩ | ⟨a, rfl, hm⟩ := finds_optional hf
  · exact ⟨.absent p, rfl, rfl, trivial⟩
  · obtain ⟨d, rfl, hs, hr⟩ := h hm
    exact ⟨.present p d, rfl, hs, hr⟩

/-- A repetition is derived item by item, whatever its limit is. -/
theorem Sound.upTo {m : Matcher p.Value} (h : Sound (f := .one p) m) (limit : Nat) :
    Sound (f := .many p) (upTo m limit) := by
  induction limit with
  | zero =>
      intro c a c' hf
      obtain ⟨rfl, rfl⟩ := finds_pure.mp hf
      exact ⟨.nil p, rfl, rfl, trivial⟩
  | succ limit ih =>
      intro c a c' hf
      obtain ⟨o, c₁, ho, hrest⟩ := finds_bind.mp hf
      obtain ⟨rfl, rfl⟩ | ⟨a, rfl, hm⟩ := finds_optional ho
      · obtain ⟨rfl, rfl⟩ := finds_pure.mp hrest
        exact ⟨.nil p, rfl, rfl, trivial⟩
      · simp only [finds_bind, finds_pure] at hrest
        obtain ⟨as, c₂, hm', rfl, rfl⟩ := hrest
        obtain ⟨d, rfl, hs, hr⟩ := h hm
        obtain ⟨ds, rfl, hs', hr'⟩ := ih hm'
        refine ⟨.cons p d ds, rfl, ?_, ?_⟩
        · rw [hs, hs', Tree.spelled_cons, List.append_assoc]
        · rw [hs'] at hr
          exact Tree.reads_cons.mpr ⟨hr, hr'⟩

theorem Sound.many {m : Matcher p.Value} (h : Sound (f := .one p) m) :
    Sound (f := .many p) (many m) :=
  fun _ _ _ hf => h.upTo _ hf

/-! ### Literals and names -/

/-- Literals are derived as atoms, each by its kind. -/
theorem sound_literal : Sound (f := .one (.level .atom)) do return .literal (← Rule.literal) := by
  intro c a c' hf
  simp only [finds_bind, finds_pure] at hf
  obtain ⟨l, c₁, hl, rfl, rfl⟩ := hf
  obtain ⟨m, hmem, hm⟩ := finds_firstOf (finds_named.mp hl)
  simp only [List.mem_cons, List.not_mem_nil, or_false] at hmem
  rcases hmem with rfl | rfl | rfl | rfl
  · simp only [Rule.number, finds_named, finds_bind, finds_pure] at hm
    obtain ⟨t, c₂, ht, rfl, rfl⟩ := hm
    obtain ⟨hs, ht⟩ := finds_lexeme Token.exact_number ht
    exact ⟨.number t, rfl, by simpa using hs, ⟨ht, trivial⟩⟩
  · simp only [Rule.text, finds_named, finds_bind, finds_pure] at hm
    obtain ⟨t, c₂, ht, rfl, rfl⟩ := hm
    obtain ⟨hs, ht⟩ := finds_lexeme Token.exact_quoted ht
    exact ⟨.text t, rfl, by simpa using hs, ⟨ht, trivial⟩⟩
  · simp only [Rule.truth, finds_named, finds_bind, finds_pure] at hm
    obtain ⟨t, c₂, ht, rfl, rfl⟩ := hm
    obtain ⟨hs, ht⟩ := finds_lexeme Token.exact_truthWord ht
    exact ⟨.truth t, rfl, by simpa using hs, ⟨ht, trivial⟩⟩
  · simp only [Rule.null, finds_named, finds_bind, finds_pure] at hm
    obtain ⟨t, c₂, ht, rfl, rfl⟩ := hm
    obtain ⟨hs, ht⟩ := finds_lexeme Token.exact_nullWord ht
    exact ⟨.null t, rfl, by simpa using hs, ⟨ht, trivial⟩⟩

/-- Names are derived as atoms. -/
theorem sound_var : Sound (f := .one (.level .atom)) Rule.var := by
  intro c a c' hf
  simp only [Rule.var, finds_named, finds_bind, finds_pure] at hf
  obtain ⟨n, c₁, hn, rfl, rfl⟩ := hf
  obtain ⟨t, rfl, hs, ht⟩ := finds_name hn
  exact ⟨.var t, rfl, by simpa using hs, ⟨ht, trivial⟩⟩

/-- Keys are derived as texts, numbers or names. -/
theorem sound_key : Sound (f := .one .key) Rule.key := by
  intro c a c' hf
  obtain ⟨m, hmem, hm⟩ := finds_firstOf (finds_named.mp hf)
  simp only [List.mem_cons, List.not_mem_nil, or_false] at hmem
  rcases hmem with rfl | rfl | rfl
  · simp only [Rule.text, finds_named, finds_bind, finds_pure] at hm
    obtain ⟨t, c₂, ht, rfl, rfl⟩ := hm
    obtain ⟨hs, ht⟩ := finds_lexeme Token.exact_quoted ht
    exact ⟨.textKey t, rfl, by simpa using hs, ⟨ht, trivial⟩⟩
  · simp only [Rule.number, finds_named, finds_bind, finds_pure] at hm
    obtain ⟨t, c₂, ht, rfl, rfl⟩ := hm
    obtain ⟨hs, ht⟩ := finds_lexeme Token.exact_number ht
    exact ⟨.numberKey t, rfl, by simpa using hs, ⟨ht, trivial⟩⟩
  · simp only [finds_bind, finds_pure] at hm
    obtain ⟨n, c₁, hn, rfl, rfl⟩ := hm
    obtain ⟨t, rfl, hs, ht⟩ := finds_name hn
    exact ⟨.nameKey t, rfl, by simpa using hs, ⟨ht, trivial⟩⟩

/-! ### Series -/

/-- An item behind a comma is derived. -/
theorem sound_nextItem {m : Matcher p.Value} (h : Sound (f := .one p) m) :
    Sound (f := .one (.nextItem p)) (Rule.nextItem m) := by
  intro c a c' hf
  simp only [Rule.nextItem, finds_named, finds_bind] at hf
  obtain ⟨_, c₁, hcomma, ha⟩ := hf
  have hcomma := finds_symbol (x := ',') rfl hcomma
  obtain ⟨d, rfl, hs, hr⟩ := h ha
  refine ⟨.nextItem p d, rfl, ?_, ?_⟩
  · simp [hcomma, hs]
  · simpa using hr

/-- A series is derived as its first item and the others. -/
theorem sound_series {m : Matcher p.Value} (hp : p.isItem = true)
    (h : Sound (f := .one p) m) : Sound (f := .one (.series p)) (Rule.series m) := by
  intro c a c' hf
  simp only [Rule.series, finds_named, finds_bind, finds_pure] at hf
  obtain ⟨a, c₁, ha, as, c₂, has, rfl, rfl⟩ := hf
  obtain ⟨d, rfl, hs, hr⟩ := h ha
  obtain ⟨ds, rfl, hs', hr'⟩ := (sound_nextItem h).many has
  refine ⟨.series p hp d ds, rfl, ?_, ?_⟩
  · simp [hs, hs']
  · rw [hs'] at hr
    exact Tree.reads_series.mpr ⟨hr, hr'⟩

/-- A series in brackets, which may be absent, with white space on both sides. -/
theorem finds_bracketed {m : Matcher p.Value} (hp : p.isItem = true)
    (h : Sound (f := .one p) m) {α : Type}
    {l r : String} {x y : Char} (hl : l.toList = [x]) (hr : r.toList = [y])
    {g : List p.Value → α} {a : α}
    (hf : Finds (do
      Rule.symbol l
      Rule.gap
      let as ← optional (Rule.series m)
      Rule.gap
      Rule.symbol r
      return g (Rule.orNothing as)) c a c') :
    ∃ w, ∃ d : Tree (.perhaps (.series p)), ∃ w', a = g (Rule.orNothing d.image) ∧
      c.rest = x :: w ++ d.spelled ++ w' ++ y :: c'.rest ∧
      greedy .space w (d.spelled ++ (w' ++ y :: c'.rest)) ∧
      d.Reads greedy (w' ++ y :: c'.rest) ∧ greedy .space w' (y :: c'.rest) := by
  -- the parts from left to right, each found where the one before has ended
  simp only [finds_bind, finds_pure] at hf
  obtain ⟨_, c₁, h₁, _, c₂, h₂, as, c₃, h₃, _, c₄, h₄, _, c₅, h₅, rfl, rfl⟩ := hf
  obtain ⟨w, hw, hsp⟩ := finds_gap h₂
  obtain ⟨d, rfl, hs, hd⟩ := (sound_series hp h).optional h₃
  obtain ⟨w', hw', hsp'⟩ := finds_gap h₄
  have hclose := finds_symbol hr h₅
  rw [hclose] at hw' hsp'
  rw [hw'] at hs hd
  rw [hs] at hw hsp
  refine ⟨w, d, w', rfl, ?_, hsp, hd, hsp'⟩
  simp [finds_symbol hl h₁, hw]

/-! ### Atoms -/

section Atoms

variable {expr : Matcher Expr} (h : Sound (f := .one (.level .expr)) expr)
include h

/-- What is found in parentheses is derived as an atom. -/
theorem sound_inner : Sound (f := .one (.level .atom)) (Rule.inner expr) := by
  intro c a c' hf
  simp only [Rule.inner, finds_named, finds_bind, finds_pure] at hf
  obtain ⟨_, c₁, h₁, e, c₂, h₂, _, c₃, h₃, rfl, rfl⟩ := hf
  have hopen := finds_symbol (x := '(') rfl h₁
  have hclose := finds_symbol (x := ')') rfl h₃
  obtain ⟨d, rfl, hs, hr⟩ := h h₂
  rw [hclose] at hs hr
  refine ⟨.inner d, rfl, ?_, ?_⟩
  · simp [hopen, hs]
  · simpa using hr

/-- A list is derived with its brackets. -/
theorem sound_list : Sound (f := .one (.level .atom)) (Rule.list expr) := by
  intro c a c' hf
  obtain ⟨w, d, w', rfl, hs, hw, hd, hw'⟩ :=
    finds_bracketed rfl h (x := '[') rfl (y := ']') rfl (finds_named.mp hf)
  refine ⟨.list w d w', rfl, ?_, ?_⟩
  · simpa using hs
  · simpa using ⟨hw, hd, hw'⟩

/-- A pair is derived from its key and its value. -/
theorem sound_pair : Sound (f := .one .pair) (Rule.pair expr) := by
  intro c a c' hf
  simp only [Rule.pair, finds_named, finds_bind, finds_pure] at hf
  obtain ⟨_, c₁, h₁, k, c₂, h₂, _, c₃, h₃, _, c₄, h₄, e, c₅, h₅, rfl, rfl⟩ := hf
  obtain ⟨w, hw, hsp⟩ := finds_gap h₁
  obtain ⟨dk, rfl, hk, hkr⟩ := sound_key h₂
  obtain ⟨w', hw', hsp'⟩ := finds_gap h₃
  have hcolon := finds_symbol (x := ':') rfl h₄
  obtain ⟨d, rfl, hs, hr⟩ := h h₅
  rw [hs] at hcolon
  rw [hcolon] at hw' hsp'
  rw [hw'] at hk hkr
  rw [hk] at hw hsp
  refine ⟨.pair w dk w' d, rfl, ?_, ?_⟩
  · simp [hw]
  · simpa using ⟨hsp, hkr, hsp', hr⟩

/-- A dictionary is derived with its braces. -/
theorem sound_dict : Sound (f := .one (.level .atom)) (Rule.dict expr) := by
  intro c a c' hf
  obtain ⟨w, d, w', rfl, hs, hw, hd, hw'⟩ :=
    finds_bracketed rfl (sound_pair h) (x := '\x7b') rfl (y := '\x7d') rfl (finds_named.mp hf)
  refine ⟨.dict w d w', rfl, ?_, ?_⟩
  · simpa using hs
  · simpa using ⟨hw, hd, hw'⟩

/-- Every atom that is found is derived. -/
theorem sound_atom : Sound (f := .one (.level .atom)) (Rule.atom expr) := by
  refine .named (.firstOf fun m hm => ?_)
  simp only [List.mem_cons, List.not_mem_nil, or_false] at hm
  rcases hm with rfl | rfl | rfl | rfl | rfl
  · exact sound_literal
  · exact sound_var
  · exact sound_inner h
  · exact sound_list h
  · exact sound_dict h

/-! ### Calls, indices and members -/

/-- A call is derived with its parentheses. -/
theorem sound_call : Sound (f := .one .trailer) (Rule.call expr) := by
  intro c a c' hf
  obtain ⟨w, d, w', rfl, hs, hw, hd, hw'⟩ :=
    finds_bracketed rfl h (x := '(') rfl (y := ')') rfl (finds_named.mp hf)
  refine ⟨.call w d w', rfl, ?_, ?_⟩
  · simpa using hs
  · simpa using ⟨hw, hd, hw'⟩

/-- An index is derived with its brackets. -/
theorem sound_index : Sound (f := .one .trailer) (Rule.index expr) := by
  intro c a c' hf
  simp only [Rule.index, finds_named, finds_bind, finds_pure] at hf
  obtain ⟨_, c₁, h₁, e, c₂, h₂, _, c₃, h₃, rfl, rfl⟩ := hf
  have hopen := finds_symbol (x := '[') rfl h₁
  have hclose := finds_symbol (x := ']') rfl h₃
  obtain ⟨d, rfl, hs, hr⟩ := h h₂
  rw [hclose] at hs hr
  refine ⟨.index d, rfl, ?_, ?_⟩
  · simp [hopen, hs]
  · simpa using hr

omit h in
/-- A member is derived from its name. -/
theorem sound_member : Sound (f := .one .trailer) Rule.member := by
  intro c a c' hf
  simp only [Rule.member, finds_named, finds_bind, finds_pure] at hf
  obtain ⟨_, c₁, h₁, _, c₂, h₂, n, c₃, h₃, rfl, rfl⟩ := hf
  have hdot := finds_symbol (x := '.') rfl h₁
  obtain ⟨w, hw, hsp⟩ := finds_gap h₂
  obtain ⟨t, rfl, hs, ht⟩ := finds_name h₃
  rw [hs] at hw hsp
  refine ⟨.member w t, rfl, ?_, ?_⟩
  · simp [hdot, hw]
  · simpa using ⟨hsp, ht⟩

/-- White space in front of a call, an index or a member is part of its derivation. -/
theorem sound_nextTrailer : Sound (f := .one .nextTrailer) (Rule.nextTrailer expr) := by
  have trailer : Sound (f := .one .trailer) (Rule.trailer expr) := by
    refine .named (.firstOf fun m hm => ?_)
    simp only [List.mem_cons, List.not_mem_nil, or_false] at hm
    rcases hm with rfl | rfl | rfl
    · exact sound_call h
    · exact sound_index h
    · exact sound_member
  intro c a c' hf
  simp only [Rule.nextTrailer, finds_named, finds_bind] at hf
  obtain ⟨_, c₁, h₁, h₂⟩ := hf
  obtain ⟨w, hw, hsp⟩ := finds_gap h₁
  obtain ⟨d, rfl, hs, hr⟩ := trailer h₂
  rw [hs] at hw hsp
  refine ⟨.nextTrailer w d, rfl, ?_, ?_⟩
  · simp [hw]
  · simpa using ⟨hsp, hr⟩

/-- A factor is derived as its atom and what stands behind it. -/
theorem sound_factor : Sound (f := .one (.level .factor)) (Rule.factor expr) := by
  intro c a c' hf
  simp only [Rule.factor, finds_named, finds_bind, finds_pure] at hf
  obtain ⟨a, c₁, ha, ts, c₂, hts, rfl, rfl⟩ := hf
  obtain ⟨d, rfl, hs, hr⟩ := sound_atom h ha
  obtain ⟨ds, rfl, hs', hr'⟩ := (sound_nextTrailer h).many hts
  rw [hs'] at hs hr
  refine ⟨.factor d ds, rfl, ?_, ?_⟩
  · simp [hs]
  · exact Tree.reads_factor.mpr ⟨hr, hr'⟩

/-- A minus sign is derived with its operand; anything else is a factor. -/
theorem sound_unary {unary : Matcher Expr} (hu : Sound (f := .one (.level .unary)) unary) :
    Sound (f := .one (.level .unary)) (Rule.unary expr unary) := by
  refine .named (.firstOf fun m hm => ?_)
  simp only [List.mem_cons, List.not_mem_nil, or_false] at hm
  intro c a c' hf
  rcases hm with rfl | rfl
  · simp only [Rule.minus, finds_named, finds_bind, finds_pure] at hf
    obtain ⟨_, c₁, h₁, _, c₂, h₂, e, c₃, h₃, rfl, rfl⟩ := hf
    have hminus := finds_symbol (x := '-') rfl h₁
    obtain ⟨w, hw, hsp⟩ := finds_gap h₂
    obtain ⟨d, rfl, hs, hr⟩ := hu h₃
    rw [hs] at hw hsp
    refine ⟨.minus w d, rfl, ?_, ?_⟩
    · simp [hminus, hw]
    · simpa using ⟨hsp, hr⟩
  · obtain ⟨d, rfl, hs, hr⟩ := sound_factor h hf
    exact ⟨.single d, rfl, hs, hr⟩

end Atoms

/-! ### Operators -/

section Operators

variable {operand : Matcher Expr}

/-- Operators of a tier are derived one after the other. -/
theorem sound_chain (i : Tier) (h : Sound (f := .one (.level i.operand)) operand) :
    Sound (f := .one (.level (.chain i))) (Rule.chain operand (Rule.operator i.signs)) := by
  have step : Sound (f := .one (.step i)) (Rule.step operand (Rule.operator i.signs)) := by
    intro c a c' hf
    simp only [Rule.step, finds_named, finds_bind, finds_pure] at hf
    obtain ⟨_, c₁, h₁, o, c₂, h₂, _, c₃, h₃, e, c₄, h₄, rfl, rfl⟩ := hf
    obtain ⟨w, hw, hsp⟩ := finds_gap h₁
    obtain ⟨t, ht, hsign⟩ := finds_operator h₂
    obtain ⟨w', hw', hsp'⟩ := finds_gap h₃
    obtain ⟨d, rfl, hs, hr⟩ := h h₄
    rw [hs] at hw' hsp'
    rw [hw'] at ht hsign
    rw [ht] at hw hsp
    refine ⟨.step i w o t w' d, rfl, ?_, ?_⟩
    · simp [hw]
    · simpa using ⟨hsp, hsign, hsp', hr⟩
  intro c a c' hf
  simp only [Rule.chain, finds_named, finds_bind, finds_pure] at hf
  obtain ⟨e, c₁, he, ss, c₂, hss, rfl, rfl⟩ := hf
  obtain ⟨d, rfl, hs, hr⟩ := h he
  obtain ⟨ds, rfl, hs', hr'⟩ := step.many hss
  rw [hs'] at hs hr
  refine ⟨.chain i d ds, rfl, ?_, ?_⟩
  · simp [hs]
  · exact Tree.reads_chain.mpr ⟨hr, hr'⟩

theorem sound_comparison {unary : Matcher Expr} (h : Sound (f := .one (.level .unary)) unary) :
    Sound (f := .one (.level (.chain .comparison))) (Rule.comparison unary) :=
  sound_chain .comparison (sound_chain .sum (sound_chain .product h))

/-- A symbol or a word is found as its pattern takes it. -/
theorem finds_symbolOrWord {q : Pattern} (hq : q.Exact) {u : Unit}
    (h : Finds (Rule.symbolOrWord q) c u c') : ∃ t, c.rest = t ++ c'.rest ∧ q.Takes t c'.rest := by
  simp only [Rule.symbolOrWord, finds_named, finds_bind, finds_pure] at h
  obtain ⟨t, c₁, ht, -, rfl⟩ := h
  exact ⟨t, finds_lexeme hq ht⟩

/-- A denial is derived with what it denies; anything else is a comparison. -/
theorem sound_negation {unary negation : Matcher Expr} (hu : Sound (f := .one (.level .unary)) unary)
    (hn : Sound (f := .one (.level .negation)) negation) :
    Sound (f := .one (.level .negation)) (Rule.negation unary negation) := by
  refine .named (.firstOf fun m hm => ?_)
  simp only [List.mem_cons, List.not_mem_nil, or_false] at hm
  intro c a c' hf
  rcases hm with rfl | rfl
  · simp only [Rule.denial, finds_named, finds_bind, finds_pure] at hf
    obtain ⟨_, c₁, h₁, _, c₂, h₂, e, c₃, h₃, rfl, rfl⟩ := hf
    obtain ⟨t, ht, hnot⟩ := finds_symbolOrWord Token.exact_denial h₁
    obtain ⟨w, hw, hsp⟩ := finds_gap h₂
    obtain ⟨d, rfl, hs, hr⟩ := hn h₃
    rw [hs] at hw hsp
    rw [hw] at ht hnot
    refine ⟨.denial t w d, rfl, ?_, ?_⟩
    · simp [ht]
    · simpa using ⟨hnot, hsp, hr⟩
  · obtain ⟨d, rfl, hs, hr⟩ := sound_comparison hu hf
    exact ⟨.comparison d, rfl, hs, hr⟩

/-- A connective is derived with its right operand. -/
theorem sound_nextOperand (k : Connective) (h : Sound (f := .one (.level k.operand)) operand) :
    Sound (f := .one (.operand k))
      (Rule.nextOperand (Rule.symbolOrWord k.pattern) operand) := by
  intro c a c' hf
  simp only [Rule.nextOperand, finds_named, finds_bind] at hf
  obtain ⟨_, c₁, h₁, _, c₂, h₂, _, c₃, h₃, h₄⟩ := hf
  obtain ⟨w, hw, hsp⟩ := finds_gap h₁
  obtain ⟨t, ht, hconn⟩ := finds_symbolOrWord k.exact_starts.1 h₂
  obtain ⟨w', hw', hsp'⟩ := finds_gap h₃
  obtain ⟨d, rfl, hs, hr⟩ := h h₄
  rw [hs] at hw' hsp'
  rw [hw'] at ht hconn
  rw [ht] at hw hsp
  refine ⟨.operand k w t w' d, rfl, ?_, ?_⟩
  · simp [hw]
  · simpa using ⟨hsp, hconn, hsp', hr⟩

/-- Operands of `and` are derived one after the other. -/
theorem sound_conjunction (h : Sound (f := .one (.level .negation)) operand) :
    Sound (f := .one (.level (.logic .conj))) (Rule.conjunction operand) := by
  intro c a c' hf
  simp only [Rule.conjunction, finds_named, finds_bind, finds_pure] at hf
  obtain ⟨e, c₁, he, es, c₂, hes, rfl, rfl⟩ := hf
  obtain ⟨d, rfl, hs, hr⟩ := h he
  obtain ⟨ds, rfl, hs', hr'⟩ := (sound_nextOperand .conj h).many hes
  rw [hs'] at hs hr
  refine ⟨.logic .conj d ds, rfl, ?_, Tree.reads_logic.mpr ⟨hr, hr'⟩⟩
  rw [hs, ← List.append_assoc]
  exact congrArg (· ++ c₂.rest) (Tree.spelled_logic .conj d ds).symm

/-- Operands of `or` are derived one after the other. -/
theorem sound_disjunction (h : Sound (f := .one (.level .negation)) operand) :
    Sound (f := .one (.level (.logic .disj))) (Rule.disjunction operand) := by
  intro c a c' hf
  simp only [Rule.disjunction, finds_named, finds_bind, finds_pure] at hf
  obtain ⟨e, c₁, he, es, c₂, hes, rfl, rfl⟩ := hf
  obtain ⟨d, rfl, hs, hr⟩ := sound_conjunction h he
  obtain ⟨ds, rfl, hs', hr'⟩ := (sound_nextOperand .disj (sound_conjunction h)).many hes
  rw [hs'] at hs hr
  refine ⟨.logic .disj d ds, rfl, ?_, Tree.reads_logic.mpr ⟨hr, hr'⟩⟩
  rw [hs, ← List.append_assoc]
  exact congrArg (· ++ c₂.rest) (Tree.spelled_logic .disj d ds).symm

/-- Two branches are derived with their marks. -/
theorem sound_branches (h : Sound (f := .one (.level .choice)) operand) :
    Sound (f := .one .branches) (Rule.branches operand) := by
  intro c a c' hf
  simp only [Rule.branches, finds_named, finds_bind, finds_pure] at hf
  obtain ⟨_, c₁, h₁, _, c₂, h₂, _, c₃, h₃, yes, c₄, h₄, _, c₅, h₅, _, c₆, h₆, _, c₇, h₇, no, c₈, h₈,
    rfl, rfl⟩ := hf
  obtain ⟨w₁, hw₁, hsp₁⟩ := finds_gap h₁
  have hask := finds_symbol (x := '?') rfl h₂
  obtain ⟨w₂, hw₂, hsp₂⟩ := finds_gap h₃
  obtain ⟨d, rfl, hs, hr⟩ := h h₄
  obtain ⟨w₃, hw₃, hsp₃⟩ := finds_gap h₅
  have hcolon := finds_symbol (x := ':') rfl h₆
  obtain ⟨w₄, hw₄, hsp₄⟩ := finds_gap h₇
  obtain ⟨d', rfl, hs', hr'⟩ := h h₈
  rw [hs'] at hw₄ hsp₄
  rw [hw₄] at hcolon
  rw [hcolon] at hw₃ hsp₃
  rw [hw₃] at hs hr
  rw [hs] at hw₂ hsp₂
  rw [hw₂] at hask
  rw [hask] at hw₁ hsp₁
  refine ⟨.branches w₁ w₂ d w₃ w₄ d', rfl, ?_, ?_⟩
  · simp [hw₁]
  · simpa using ⟨hsp₁, hsp₂, hr, hsp₃, hsp₄, hr'⟩

/-- A choice is derived from its test and the branches, if there are any. -/
theorem sound_choice {negation choice : Matcher Expr}
    (hn : Sound (f := .one (.level .negation)) negation)
    (hc : Sound (f := .one (.level .choice)) choice) :
    Sound (f := .one (.level .choice)) (Rule.choice negation choice) := by
  intro c a c' hf
  simp only [Rule.choice, finds_named, finds_bind] at hf
  obtain ⟨test, c₁, htest, b, c₂, hb, hend⟩ := hf
  obtain ⟨d, rfl, hs, hr⟩ := sound_disjunction hn htest
  obtain ⟨d', rfl, hs', hr'⟩ := (sound_branches hc).optional hb
  rw [hs'] at hs hr
  have hd : (Tree.choice d d').image = a ∧ c₂ = c' := by
    rw [Tree.image]
    cases hb' : d'.image with
    | none =>
        rw [hb'] at hend
        exact finds_pure.mp hend
    | some p =>
        rw [hb'] at hend
        exact finds_pure.mp hend
  obtain ⟨rfl, rfl⟩ := hd
  refine ⟨.choice d d', rfl, ?_, ?_⟩
  · simp [hs]
  · exact Tree.reads_choice.mpr ⟨hr, hr'⟩

/-- An expression is derived with the white space around it. -/
theorem sound_expr {choice : Matcher Expr} (h : Sound (f := .one (.level .choice)) choice) :
    Sound (f := .one (.level .expr)) (Rule.expr choice) := by
  intro c a c' hf
  simp only [Rule.expr, finds_named, finds_bind, finds_pure] at hf
  obtain ⟨_, c₁, h₁, e, c₂, h₂, _, c₃, h₃, rfl, rfl⟩ := hf
  obtain ⟨w, hw, hsp⟩ := finds_gap h₁
  obtain ⟨d, rfl, hs, hr⟩ := h h₂
  obtain ⟨w', hw', hsp'⟩ := finds_gap h₃
  rw [hw'] at hs hr
  rw [hs] at hw hsp
  refine ⟨.expr w d w', rfl, ?_, ?_⟩
  · simp [hw]
  · simpa using ⟨hsp, hr, hsp'⟩

end Operators

/-! ### The rules together -/

/-- All rules that other rules refer back to are sound. -/
structure Rules.AreSound (r : Rules) : Prop where
  expr : Sound (f := .one (.level .expr)) r.expr
  choice : Sound (f := .one (.level .choice)) r.choice
  negation : Sound (f := .one (.level .negation)) r.negation
  unary : Sound (f := .one (.level .unary)) r.unary

/-- The rules a level deeper are sound. -/
theorem Rules.AreSound.next {r : Rules} (h : r.AreSound) : r.next.AreSound := by
  have unary := sound_unary h.expr h.unary
  have negation := sound_negation unary h.negation
  have choice := sound_choice negation h.choice
  exact ⟨sound_expr choice, choice, negation, unary⟩

/-- **Soundness of the rules.** -/
theorem sound_rules (depth : Nat) : (rules depth).AreSound := by
  induction depth with
  | zero => exact ⟨nofun, nofun, nofun, nofun⟩
  | succ depth ih => exact ih.next

end Trellis.Expr
