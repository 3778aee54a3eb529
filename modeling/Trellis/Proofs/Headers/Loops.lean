import Trellis.Proofs.Evaluation.Variables
import Trellis.Proofs.Headers.Words
import Trellis.Proofs.Syntax.Context
import Trellis.Render.Group
import Trellis.Samples

/-!
# Proofs — Headers — Loops

What the header of a loop means (`loop_header`).

A header is cut at its first whole word `in`.  A dollar sign is a character of names, but none of
words: a name with dollar signs is cut into words by them, and a header is cut within such a name if
one of these words is `in`.  Names without such a word are `Undivided`.  In front of a collection
that can be compiled, undivided names are found as they are, and the loop is one over that
collection; with any other name the header is cut too early.
-/

namespace Trellis.Header

open Trellis.Text (isAlnum isBlank dropLeading dropTrailing)

/-! ### Cutting at the word -/

section Cutting

variable {s x y : List Char} {c : Char}

/-- A character that begins no word `in` goes to the front. -/
theorem splitAtIn_cons (b : Bool) (h : ¬ ['i', 'n'] <+: c :: s) :
    splitAtIn b (c :: s) = (splitAtIn (isAlnum c) s).map fun p => (c :: p.1, p.2) := by
  rw [splitAtIn]
  rintro r rfl rfl
  exact h ⟨r, rfl⟩

/-- A text in front of a character that belongs to no word is searched on its own. -/
theorem splitAtIn_append (hc : isAlnum c = false) (b : Bool) (x s : List Char) :
    splitAtIn b (x ++ c :: s) =
      ((splitAtIn b x).map fun p => (p.1, p.2 ++ c :: s)).or
        ((splitAtIn false s).map fun p => (x ++ c :: p.1, p.2)) := by
  have hi : 'i' ≠ c := by
    rintro rfl
    exact absurd hc (by decide)
  have hn : 'n' ≠ c := by
    rintro rfl
    exact absurd hc (by decide)
  -- a word ends in front of that character as it does at the end of the text
  have ends (r : List Char) : endsWord (r ++ c :: s) = endsWord r := by
    cases r with
    | nil => simp [endsWord, hc]
    | cons => rfl
  fun_induction splitAtIn b x with
  | case1 b =>
      rw [List.nil_append, splitAtIn_cons b (by simp [hi]), hc]
      rfl
  | case2 b r h => simp [splitAtIn, ends, h]
  | case3 b r h ih =>
      have ih : splitAtIn true ('n' :: (r ++ c :: s)) = _ := ih
      simp only [List.cons_append, splitAtIn, ends, h]
      rw [if_neg (by simp), ih, Option.map_or]
      simp [Function.comp_def]
  -- not at the front of `x`, and `c` cannot be what completes it there
  | case4 b a x h ih =>
      rw [List.cons_append, splitAtIn_cons, ih, Option.map_or]
      · simp [Function.comp_def]
      · rintro ⟨r, hr⟩
        simp only [List.cons_append, List.nil_append, List.cons.injEq] at hr
        obtain ⟨rfl, hr⟩ := hr
        cases x with
        | nil => exact hn (List.cons.inj hr).1
        | cons d x =>
            obtain rfl := (List.cons.inj hr).1
            exact h x rfl rfl

/-- A text of word characters is one word, or the end of one. -/
theorem splitAtIn_word (h : ∀ c ∈ x, isAlnum c = true) :
    splitAtIn true x = none ∧ (splitAtIn false x = none ↔ x ≠ ['i', 'n']) := by
  have inside : ∀ {x : List Char}, (∀ c ∈ x, isAlnum c = true) → splitAtIn true x = none := by
    intro x h
    generalize hb : true = b
    fun_induction splitAtIn b x with
    | case1 => rfl
    | case2 b r hw => simp [← hb] at hw
    | case3 b r hw ih =>
        rw [ih (List.forall_mem_cons.mp h).2 rfl]
        rfl
    | case4 b a x hne ih =>
        rw [ih (List.forall_mem_cons.mp h).2 (h a List.mem_cons_self).symm]
        rfl
  refine ⟨inside h, ?_⟩
  -- behind the first character everything is inside a word
  by_cases hin : ['i', 'n'] <+: x
  · obtain ⟨r, rfl⟩ := hin
    cases r with
    | nil => simp [splitAtIn, endsWord]
    | cons d r =>
        have hd : isAlnum d = true := h d (by simp)
        have hr : splitAtIn true ('n' :: d :: r) = none := inside fun c hc => h c (by simp_all)
        simp [splitAtIn, endsWord, hd, hr]
  · have hne : x ≠ ['i', 'n'] := fun he => hin (he ▸ List.prefix_refl _)
    refine iff_of_true ?_ hne
    cases x with
    | nil => rfl
    | cons a x =>
        obtain ⟨ha, hx⟩ := List.forall_mem_cons.mp h
        rw [splitAtIn_cons false hin, ha, inside hx]
        rfl

/-- Among words with dollar signs between them, one that is `in` is found. -/
theorem splitAtIn_eq_none_iff {s : List Char} (h : ∀ c ∈ s, isAlnum c = true ∨ c = '$') :
    splitAtIn false s = none ↔ ['i', 'n'] ∉ s.splitOn '$' := by
  have words {x : List Char} (hx : ∀ c ∈ x, isAlnum c = true ∨ c = '$') (hd : '$' ∉ x) :
      ∀ c ∈ x, isAlnum c = true :=
    fun c hc => (hx c hc).resolve_right fun he => hd (he ▸ hc)
  by_cases hd : '$' ∈ s
  · obtain ⟨x, r, rfl, hx⟩ := List.eq_append_cons_of_mem hd
    obtain ⟨hword, hr⟩ : (∀ c ∈ x, isAlnum c = true) ∧ ∀ c ∈ r, isAlnum c = true ∨ c = '$' :=
      ⟨words (fun c hc => h c (by simp [hc])) hx, fun c hc => h c (by simp [hc])⟩
    rw [splitAtIn_append (by decide), Option.or_eq_none_iff, Option.map_eq_none_iff,
      Option.map_eq_none_iff, (splitAtIn_word hword).2, splitAtIn_eq_none_iff hr,
      List.splitOn_append_cons_self, List.splitOn_eq_singleton hx]
    simp [eq_comm]
  · rw [(splitAtIn_word (words h hd)).2, List.splitOn_eq_singleton hd]
    simp [eq_comm]
termination_by s.length

end Cutting

/-! ### Names between commas -/

/-- No word in the name, between dollar signs or its ends, is `in`. -/
def Undivided (k : String) : Prop := ['i', 'n'] ∉ k.toList.splitOn '$'

instance (k : String) : Decidable (Undivided k) :=
  inferInstanceAs (Decidable (['i', 'n'] ∉ k.toList.splitOn '$'))

/-- Names with commas and blanks between them. -/
def targets (ns : List String) : List Char := ", ".toList.intercalate (ns.map String.toList)

/-- Names are written with a comma and a blank between them. -/
theorem targets_cons_cons (k l : String) (ns : List String) :
    targets (k :: l :: ns) = k.toList ++ ',' :: ' ' :: targets (l :: ns) := by
  simp only [targets, List.map_cons, List.intercalate_cons_cons]
  simp

theorem targets_singleton (k : String) : targets [k] = k.toList := by
  simp [targets]

/-- A text of characters of names that is not empty. -/
structure IsTarget (k : String) : Prop where
  nonempty : k.toList ≠ []
  chars : ∀ c ∈ k.toList, Expr.Token.continuesName c = true

/-- The characters of names are those of words and the dollar sign; a comma is none, and neither is
a blank. -/
theorem of_continuesName {c : Char} (h : Expr.Token.continuesName c = true) :
    (isAlnum c = true ∨ c = '$') ∧ isBlank c = false ∧ c ≠ ',' := by
  have ascii (hc : (Text.isAsciiLetter c || Text.isAsciiDigit c) = true) :
      isAlnum c = true ∧ isBlank c = false ∧ c ≠ ',' := by
    have hrange : 48 ≤ c.toNat ∧ c.toNat ≤ 122 := by
      simp only [Text.isAsciiLetter, Text.isAsciiDigit, Bool.or_eq_true, Bool.and_eq_true,
        decide_eq_true_eq, Char.le_def, UInt32.le_iff_toNat_le] at hc
      rcases hc with (⟨hl, hu⟩ | ⟨hl, hu⟩) | ⟨hl, hu⟩
      · exact ⟨le_trans (by decide) hl, hu⟩
      · exact ⟨le_trans (by decide) hl, le_trans hu (by decide)⟩
      · exact ⟨hl, le_trans hu (by decide)⟩
    refine ⟨?_, ?_, ?_⟩
    · have : c.toNat < 128 := by omega
      rw [isAlnum, if_pos this, hc]
      rfl
    · simp [isBlank, Text.isSpace]
      omega
    · rintro rfl
      exact absurd hrange.1 (by decide)
  -- beside the ASCII letters, those whose other case is one
  have variants : ∀ m ∈ [0x130, 0x17f, 0x212a], isAlnum (Char.ofNat m) = true ∧
      isBlank (Char.ofNat m) = false ∧ Char.ofNat m ≠ ',' := by decide +kernel
  simp only [Expr.Token.continuesName, Expr.Token.startsName, Expr.Token.isCaseVariant,
    Bool.or_eq_true, decide_eq_true_eq] at h
  rcases h with (((h | rfl) | rfl) | (h | h) | h) | h
  · exact (ascii (by simp [h])).imp_left .inl
  · decide
  · decide
  · exact Char.ofNat_toNat c ▸ h ▸ (variants 0x130 (by decide)).imp_left .inl
  · exact Char.ofNat_toNat c ▸ h ▸ (variants 0x17f (by decide)).imp_left .inl
  · exact Char.ofNat_toNat c ▸ h ▸ (variants 0x212a (by decide)).imp_left .inl
  · exact (ascii (by simp [h])).imp_left .inl

/-- A text that compiles to the name that it is can stand in a header. -/
theorem isTarget_of_compile {k : String} (h : Expr.compile k = .ok (.var k)) : IsTarget k := by
  obtain ⟨-, htakes⟩ := Expr.name_of_compileChars h Expr.breaks_nil
  obtain ⟨⟨c, u, hcu, hc, hu⟩, -, -⟩ := Expr.Token.identifier_eq_some.mp htakes
  refine ⟨by simp [hcu], ?_⟩
  rw [hcu]
  exact List.forall_mem_cons.mpr ⟨by simp [Expr.Token.continuesName, hc], hu⟩

section Targets

variable {ns : List String} {k : String} {t : List Char}

namespace IsTarget

theorem comma_not_mem (h : IsTarget k) : ',' ∉ k.toList :=
  fun hc => (of_continuesName (h.chars ',' hc)).2.2 rfl

/-- A name does not begin with white space. -/
theorem head_not_blank (h : IsTarget k) (s : List Char) :
    ∀ c ∈ (k.toList ++ s).head?, isBlank c = false := by
  intro c hc
  rw [List.head?_append_of_ne_nil _ h.nonempty] at hc
  exact (of_continuesName (h.chars c (List.mem_of_head? hc))).2.1

/-- Nor does it end with any. -/
theorem last_not_blank (h : IsTarget k) : ∀ c ∈ k.toList.getLast?, isBlank c = false :=
  fun c hc => (of_continuesName (h.chars c (List.mem_of_getLast? hc))).2.1

/-- A name is not cut just if no word `in` stands in it. -/
theorem splitAtIn_eq_none_iff (h : IsTarget k) :
    splitAtIn false k.toList = none ↔ Undivided k :=
  Header.splitAtIn_eq_none_iff fun c hc => (of_continuesName (h.chars c hc)).1

/-- A name is found without the blanks in front of it. -/
theorem strip (h : IsTarget k) {w : List Char} (hw : w.all isBlank = true) :
    Text.strip isBlank (w ++ k.toList) = k.toList := by
  have hlead := Text.dropLeading_append hw (by simpa using h.head_not_blank [])
  have htrail := Text.dropTrailing_append (t := []) (q := isBlank) rfl h.last_not_blank
  rw [List.append_nil] at htrail
  rw [Text.strip, hlead, htrail]

end IsTarget

/-- Names with commas between them do not begin with white space. -/
theorem head_targets_not_blank (hne : ns ≠ []) (h : ∀ k ∈ ns, IsTarget k) (s : List Char) :
    ∀ c ∈ (targets ns ++ s).head?, isBlank c = false := by
  cases ns with
  | nil => exact absurd rfl hne
  | cons k ns =>
      cases ns with
      | nil =>
          rw [targets_singleton]
          exact (h k List.mem_cons_self).head_not_blank s
      | cons l ns =>
          rw [targets_cons_cons, List.append_assoc]
          exact (h k List.mem_cons_self).head_not_blank _

theorem targets_ne_nil (hne : ns ≠ []) (h : ∀ k ∈ ns, IsTarget k) : targets ns ≠ [] := by
  cases ns with
  | nil => exact absurd rfl hne
  | cons k ns =>
      cases ns with
      | nil =>
          rw [targets_singleton]
          exact (h k List.mem_cons_self).nonempty
      | cons l ns => simp [targets_cons_cons]

/-- Nor do they end with any. -/
theorem last_targets_not_blank (h : ∀ k ∈ ns, IsTarget k) :
    ∀ c ∈ (targets ns).getLast?, isBlank c = false := by
  induction ns with
  | nil => simp [targets]
  | cons k ns ih =>
      obtain ⟨hk, hns⟩ := List.forall_mem_cons.mp h
      cases ns with
      | nil =>
          rw [targets_singleton]
          exact hk.last_not_blank
      | cons l ns =>
          have hl : targets (l :: ns) ≠ [] := targets_ne_nil (List.cons_ne_nil l ns) hns
          obtain ⟨d, hd⟩ := Option.ne_none_iff_exists'.mp (mt List.getLast?_eq_none_iff.mp hl)
          intro c hc
          rw [targets_cons_cons, List.getLast?_append, List.getLast?_cons, List.getLast?_cons, hd] at hc
          exact ih hns c (by simpa [hd] using hc)

/-- The names are found again. -/
theorem names_targets (hne : ns ≠ []) (h : ∀ k ∈ ns, IsTarget k) : names (targets ns) = ns := by
  suffices ∀ w : List Char, w.all isBlank = true → ',' ∉ w → names (w ++ targets ns) = ns from
    this [] rfl List.not_mem_nil
  induction ns with
  | nil => exact absurd rfl hne
  | cons k ns ih =>
      intro w hw hcomma
      obtain ⟨hk, hns⟩ := List.forall_mem_cons.mp h
      have hfree : ',' ∉ w ++ k.toList := by
        simpa [hcomma] using hk.comma_not_mem
      cases ns with
      | nil =>
          rw [targets_singleton, names, Text.splitOn_singleton, List.splitOn_eq_singleton hfree]
          simp [hk.strip hw]
      | cons l ns =>
          have ih := ih (List.cons_ne_nil l ns) hns [' '] rfl (by decide)
          rw [names, Text.splitOn_singleton] at ih
          rw [targets_cons_cons, ← List.append_assoc, names, Text.splitOn_singleton,
            List.splitOn_append_cons_self, List.splitOn_eq_singleton hfree, List.map_append]
          simpa [hk.strip hw] using ih

/-- The word is found among the names if and only if one of them is divided. -/
theorem splitAtIn_targets (hne : ns ≠ []) (h : ∀ k ∈ ns, IsTarget k) :
    splitAtIn false (targets ns) = none ↔ ∀ k ∈ ns, Undivided k := by
  induction ns with
  | nil => exact absurd rfl hne
  | cons k ns ih =>
      obtain ⟨hk, hns⟩ := List.forall_mem_cons.mp h
      cases ns with
      | nil => simpa [targets_singleton] using hk.splitAtIn_eq_none_iff
      | cons l ns =>
          have gap : splitAtIn false (' ' :: targets (l :: ns)) =
              (splitAtIn false (targets (l :: ns))).map fun p => (' ' :: p.1, p.2) :=
            splitAtIn_cons false (by rintro ⟨r, hr⟩; simp at hr)
          rw [targets_cons_cons, splitAtIn_append (by decide), Option.or_eq_none_iff,
            Option.map_eq_none_iff, Option.map_eq_none_iff, gap, Option.map_eq_none_iff,
            hk.splitAtIn_eq_none_iff, ih (List.cons_ne_nil l ns) hns]
          exact List.forall_mem_cons.symm

/-! ### Headers -/

/-- A header: names, the word and a collection. -/
def header (ns : List String) (t : List Char) : List Char := targets ns ++ " in ".toList ++ t

/-- A header is cut in its names, if they can be cut, and otherwise at the word behind them. -/
theorem splitAtIn_header :
    splitAtIn false (header ns t) =
      ((splitAtIn false (targets ns)).map fun p => (p.1, p.2 ++ " in ".toList ++ t)).or
        (some (targets ns ++ [' '], ' ' :: t)) := by
  have hheader : header ns t = targets ns ++ ' ' :: 'i' :: 'n' :: ' ' :: t := by simp [header]
  have hword : splitAtIn false ('i' :: 'n' :: ' ' :: t) = some ([], ' ' :: t) := by
    have hends : (!false && endsWord (' ' :: t)) = true := by simp [endsWord]; decide
    rw [splitAtIn, if_pos hends]
  rw [hheader, splitAtIn_append (by decide), hword]
  simp

/-- No blank leads in a header. -/
theorem dropLeading_header (hne : ns ≠ []) (h : ∀ k ∈ ns, IsTarget k) :
    dropLeading isBlank (header ns t) = header ns t := by
  have := Text.dropLeading_append (s := []) (q := isBlank) rfl
    (head_targets_not_blank hne h (" in ".toList ++ t))
  simpa [header] using this

/-- Undivided names are found with all that stands behind the word. -/
theorem loop?_header (hne : ns ≠ []) (h : ∀ k ∈ ns, IsTarget k) (hu : ∀ k ∈ ns, Undivided k) :
    loop? (header ns t) = some (targets ns, dropLeading isBlank t) := by
  have htrail : dropTrailing isBlank (targets ns ++ [' ']) = targets ns :=
    Text.dropTrailing_append rfl (last_targets_not_blank h)
  rw [loop?, dropLeading_header hne h, splitAtIn_header, (splitAtIn_targets hne h).mpr hu]
  simp [htrail]
  rfl

/-- Dropping in front leaves less than there was. -/
theorem length_dropLeading {q : Char → Bool} {c : Char} (hc : q c = false) (x y : List Char) :
    y.length < (dropLeading q (x ++ c :: y)).length := by
  induction x with
  | nil => simp [dropLeading, hc]
  | cons a x ih =>
      unfold dropLeading at ih ⊢
      cases ha : q a with
      | true => simpa [ha] using ih
      | false => simp [ha]; omega

/-- With a divided name, more stands behind the word. -/
theorem loop?_header_divided (hne : ns ≠ []) (h : ∀ k ∈ ns, IsTarget k)
    (hu : ¬ ∀ k ∈ ns, Undivided k) :
    ∃ u r, loop? (header ns t) = some (u, r) ∧ t.length < r.length := by
  obtain ⟨⟨u, r⟩, hp⟩ := Option.ne_none_iff_exists'.mp (mt (splitAtIn_targets hne h).mp hu)
  refine ⟨dropTrailing isBlank u, dropLeading isBlank (r ++ " in ".toList ++ t), ?_, ?_⟩
  · rw [loop?, dropLeading_header hne h, splitAtIn_header, hp]
    rfl
  · have := length_dropLeading (q := isBlank) (c := 'i') (by decide) (r ++ [' ']) ('n' :: ' ' :: t)
    simp only [List.append_assoc, List.length_cons] at this ⊢
    exact lt_trans (by omega) this

end Targets

/-- A text without the blanks that lead in it. -/
def unpadded (t : String) : String := String.ofList (dropLeading isBlank t.toList)

end Trellis.Header

namespace Trellis

open Header

/-- The second name of a loop is bound to the item, unless it is empty, the first to the key, and all
others keep their values. -/
theorem Render.lookup?_extend_bindings (ns : List String) (scope : Scope) (key item : Value)
    (x : String) :
    (scope.extend (Render.bindings ns key item)).lookup? x =
      if ns[1]? = some x ∧ x ≠ "" then some item
      else if ns[0]? = some x then some key
      else scope.lookup? x := by
  have text (a b : String) : Value.sameItem (.text a) (.text b) = (a == b) := rfl
  have single (k : String) (u : Value) : (scope.extend [(.text k, u)]).lookup? x =
      if k = x then some u else scope.lookup? x := by
    simp only [Scope.lookup?_extend, List.reverse_singleton, Value.lookup?_cons, text]
    by_cases hk : k = x
    · simp [hk]
    · simp [hk, Ne.symm hk, Value.lookup?]
  match ns with
  | [] => rfl
  | [k] => simpa [Render.bindings] using single k key
  | k :: v :: ns =>
      by_cases hv : v = ""
      · subst hv
        have hbindings : Render.bindings (k :: "" :: ns) key item = [(.text k, key)] := rfl
        have hx : ¬ ("" = x ∧ x ≠ "") := fun h => h.2 h.1.symm
        simpa [hbindings, hx] using single k key
      have hempty : v.isEmpty = false := by
        rwa [Bool.eq_false_iff, ne_eq, String.isEmpty_iff]
      have hpair : Scope.extend [(.text k, key)] [(.text v, item)] =
          if v = k then [(.text k, item)] else [(.text k, key), (.text v, item)] := by
        simp [Scope.extend, Value.DictMethod.merge, Value.insert, text]
      have hsecond : (k :: v :: ns)[1]? = some x ∧ x ≠ "" ↔ v = x :=
        ⟨fun h => Option.some.inj h.1, fun h => ⟨congrArg some h, h ▸ hv⟩⟩
      rw [Render.bindings, hempty, if_neg Bool.false_ne_true, hpair, if_congr hsecond rfl rfl]
      simp only [List.getElem?_cons_zero, Option.some.injEq]
      -- names that are the same are bound once, and to the item
      by_cases hvk : v = k
      · rw [if_pos hvk, single, ← hvk]
        by_cases hx : v = x <;> simp [hx]
      · rw [if_neg hvk, Scope.lookup?_extend]
        by_cases hx : v = x
        · simp [hx, Value.lookup?_cons, text]
        · by_cases hk : k = x
          · simp [hx, Ne.symm hx, hk, Value.lookup?_cons, text]
          · simp [hx, Ne.symm hx, hk, Ne.symm hk, text, Value.lookup?]

/-- Names that are found again in a header are not empty. -/
theorem Render.lookup?_bindings {ns : List String} (h : ∀ k ∈ ns, IsTarget k) (scope : Scope)
    (key item : Value) (x : String) :
    (scope.extend (Render.bindings ns key item)).lookup? x =
      if ns[1]? = some x then some item
      else if ns[0]? = some x then some key
      else scope.lookup? x := by
  have hne (hx : ns[1]? = some x) : x ≠ "" := by
    rintro rfl
    exact (h "" (List.mem_of_getElem? hx)).nonempty rfl
  rw [Render.lookup?_extend_bindings]
  exact if_congr (and_iff_left_of_imp hne) rfl rfl

/-- **The header of a loop.**  In front of a collection that can be compiled, the names of a header
are found as they are, with that collection and no more, if and only if none of them is divided.  The
loop then evaluates the collection once, in its own scope and up to the blanks that lead in it, and
runs its children in scopes that bind the first name to the key and the second to the item. -/
theorem loop_header {ns : List String} {t : String} {e : Expr} {n : Node} (hne : ns ≠ [])
    (hns : ∀ k ∈ ns, Expr.compile k = .ok (.var k)) (ht : Expr.compile t = .ok e)
    (hn : n.content = .text (", ".intercalate ns ++ " in " ++ t)) :
    Expr.compile (unpadded t) = .ok e ∧
    (Render.loopHeader n = pure (ns, unpadded t) ↔ ∀ k ∈ ns, Undivided k) ∧
    ((∀ k ∈ ns, Undivided k) →
      ∀ (eng : Engine) (body : Body) (limit : Nat) (p : Place) (g : Group),
        Render.forLoop eng body limit p n g = do
          let collection ← Render.evaluate eng p n (.text (unpadded t))
          let walk ← Rendering.onHeap (Walk.start collection)
          return (.text (← Render.forEach body p n ns limit walk ""), g.dynamic)) ∧
    ∀ (scope : Scope) (key item : Value) (x : String),
      (scope.extend (Render.bindings ns key item)).lookup? x =
        if ns[1]? = some x then some item
        else if ns[0]? = some x then some key
        else scope.lookup? x := by
  have htargets : ∀ k ∈ ns, IsTarget k := fun k hk => isTarget_of_compile (hns k hk)
  have hsearch : Markup.searchable n.content = .ok (header ns t.toList) := by
    rw [hn, Markup.searchable]
    simp [header, targets, String.toList_intercalate]
  -- with undivided names the cut is at the word behind the last of them
  have hgood (hu : ∀ k ∈ ns, Undivided k) : Render.loopHeader n = pure (ns, unpadded t) := by
    have hfirst : ns.head?.all (·.isEmpty) = false := by
      obtain ⟨k, l, rfl⟩ := List.exists_cons_of_ne_nil hne
      have hk : k ≠ "" := by
        rintro rfl
        exact (htargets "" List.mem_cons_self).nonempty rfl
      simpa using hk
    simp only [Render.loopHeader, hsearch, Rendering.ofCause, pure_bind,
      loop?_header hne htargets hu, names_targets hne htargets, hfirst]
    rfl
  refine ⟨?_, ⟨fun h => ?_, hgood⟩, fun hu eng body limit p g => ?_,
    Render.lookup?_bindings htargets⟩
  · rw [Expr.compile, unpadded, String.toList_ofList]
    exact Expr.compileChars_dropLeading ht
  · -- With a divided name the collection is longer than the text.
    by_contra hu
    obtain ⟨u, r, hloop, hlength⟩ := loop?_header_divided (t := t.toList) hne htargets hu
    simp only [Render.loopHeader, hsearch, Rendering.ofCause, pure_bind, hloop] at h
    have hrun := congrArg (fun x => (x.run.run World.empty).1) h
    split at hrun
    · cases hrun
    · have hr : String.ofList r = unpadded t := congrArg Prod.snd (Except.ok.inj hrun)
      have hle : (Text.dropLeading Text.isBlank t.toList).length ≤ t.toList.length :=
        (List.dropWhile_sublist _).length_le
      rw [String.ofList_injective hr] at hlength
      omega
  · rw [Render.forLoop, hgood hu, pure_bind]

/-- A loop over two names that have the word in them, but not between dollar signs. -/
def Header.twoNames : Node :=
  Samples.leaf 0 "for" (", ".intercalate ["in_", "min$x"] ++ " in " ++ " [in_]")

theorem loop_header_two_names :
    Expr.compile "[in_]" = .ok (.list [.var "in_"]) ∧
    Render.loopHeader twoNames = pure (["in_", "min$x"], "[in_]") ∧
    (∀ (eng : Engine) (body : Body) (limit : Nat) (p : Place) (g : Group),
      Render.forLoop eng body limit p twoNames g = do
        let collection ← Render.evaluate eng p twoNames (.text "[in_]")
        let walk ← Rendering.onHeap (Walk.start collection)
        return (.text (← Render.forEach body p twoNames ["in_", "min$x"] limit walk ""),
          g.dynamic)) ∧
    (Scope.extend [] (Render.bindings ["in_", "min$x"] .none (.bool true))).lookup? "min$x" =
      some (.bool true) := by
  have names : ∀ k ∈ ["in_", "min$x"], Expr.compile k = .ok (.var k) :=
    List.forall_mem_cons.mpr ⟨by cbv, List.forall_mem_singleton.mpr (by cbv)⟩
  have collection : Expr.compile " [in_]" = .ok (.list [.var "in_"]) := by cbv
  have undivided : ∀ k ∈ ["in_", "min$x"], Undivided k := by decide
  obtain ⟨hcompile, hheader, hloop, hbindings⟩ :=
    loop_header (n := twoNames) (by simp) names collection rfl
  exact ⟨hcompile, hheader.mpr undivided, hloop undivided, hbindings [] .none (.bool true) "min$x"⟩

/-- A loop over a name that is cut. -/
def Header.dollarIn : Node :=
  Samples.leaf 0 "for" ("$in" ++ " in " ++ "xs")

/-- Not every name can be the one of a loop. -/
theorem loop_header_dollar_in :
    Expr.compile "$in" = .ok (.var "$in") ∧ Expr.compile "xs" = .ok (.var "xs") ∧
    Render.loopHeader dollarIn = pure (["$"], "in xs") ∧
    Render.loopHeader dollarIn ≠ pure (["$in"], "xs") := by
  have header : Render.loopHeader dollarIn = pure (["$"], "in xs") := rfl
  refine ⟨by cbv, by cbv, header, fun h => ?_⟩
  have := congrArg (fun x => (x.run.run World.empty).1) (header.symm.trans h)
  exact absurd (Except.ok.inj this) (by decide)

end Trellis
