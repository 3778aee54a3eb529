import Trellis.Json.Writer
import Trellis.Proofs.Markup.Attributes

/-!
# Proofs — Json — Breaks

White space in serialized text.  Of a value that is plain data (`Json.Plain`), it is found in the
texts of the value only, and there only blanks are written as they are (`Json.hasBreak_write`).
-/

namespace Trellis.Json

open Trellis.Markup (isBreak)

/-- Data that serialized text stands for: texts, whole numbers, truth values, the empty value, and
lists and dictionaries of such data with texts as keys. -/
inductive Plain : Value → Prop where
  | none : Plain .none
  | bool (b : Bool) : Plain (.bool b)
  | int (n : Int) : Plain (.int n)
  | text (s : String) : Plain (.text s)
  | list {xs : List Value} (h : ∀ x ∈ xs, Plain x) : Plain (.list xs)
  | dict {es : List (Value × Value)} (hkeys : ∀ e ∈ es, ∃ s, e.1 = .text s)
      (h : ∀ e ∈ es, Plain e.2) : Plain (.dict es)

/-- The text `t` occurs in a value, or is a key in it. -/
inductive Mentions (t : String) : Value → Prop where
  | text : Mentions t (.text t)
  | item {xs : List Value} {x : Value} (hx : x ∈ xs) (h : Mentions t x) : Mentions t (.list xs)
  | key {es : List (Value × Value)} {v : Value} (h : (.text t, v) ∈ es) : Mentions t (.dict es)
  | entry {es : List (Value × Value)} {e : Value × Value} (he : e ∈ es) (h : Mentions t e.2) :
      Mentions t (.dict es)

/-- There is white space in a text. -/
def HasBreak (s : String) : Prop := ∃ c ∈ s.toList, isBreak c = true

variable {s t : String} {v : Value}

/-- Texts put together have a break if one of them has. -/
theorem hasBreak_append : HasBreak (s ++ t) ↔ HasBreak s ∨ HasBreak t := by
  simp only [HasBreak, String.toList_append, List.mem_append, or_and_right, exists_or]

theorem not_hasBreak_of_all (h : s.toList.all (fun c => !isBreak c) = true) : ¬ HasBreak s := by
  rintro ⟨c, hc, hbreak⟩
  have := List.all_eq_true.mp h c hc
  rw [hbreak] at this
  cases this

/-- Texts with commas between them have white space where one of them has. -/
theorem hasBreak_intercalate (ts : List String) :
    HasBreak (",".intercalate ts) ↔ ∃ t ∈ ts, HasBreak t := by
  have hcomma : ¬ HasBreak "," := not_hasBreak_of_all (by decide)
  induction ts with
  | nil => simp [HasBreak]
  | cons t ts ih =>
    cases ts with
    | nil => simp
    | cons u ts =>
      have hfirst : HasBreak (",".intercalate (t :: u :: ts)) ↔
          HasBreak t ∨ HasBreak (",".intercalate (u :: ts)) := by
        rw [String.intercalate_cons_cons, hasBreak_append, hasBreak_append]
        simp [hcomma]
      exact hfirst.trans ((or_congr_right ih).trans (by simp))

/-- Brackets add no white space. -/
theorem hasBreak_brackets {l r : String} (hl : l.toList.all (fun c => !isBreak c) = true)
    (hr : r.toList.all (fun c => !isBreak c) = true) : HasBreak (l ++ s ++ r) ↔ HasBreak s := by
  rw [hasBreak_append, hasBreak_append]
  simp [not_hasBreak_of_all hl, not_hasBreak_of_all hr]

/-! ### Texts and numbers -/

/-- Breaks are among the first characters. -/
theorem toNat_le_of_isBreak {c : Char} (h : isBreak c = true) : c.toNat ≤ 32 := by
  simp only [isBreak, Bool.or_eq_true, decide_eq_true_eq] at h
  obtain (((rfl | rfl) | rfl) | rfl) | hc := h
  all_goals first | decide | omega

/-- No digit in base sixteen is a break. -/
theorem not_isBreak_hexDigits {n m : Nat} {c : Char} (h : c ∈ Text.hexDigits n m) :
    isBreak c = false := by
  have digits : (List.range 16).all (fun d => !isBreak (Text.hexDigit d)) = true := by decide
  induction n generalizing m with
  | zero => cases h
  | succ n ih =>
    rw [Text.hexDigits, List.mem_append, List.mem_singleton] at h
    obtain h | rfl := h
    · exact ih h
    · simpa using List.all_eq_true.mp digits (m % 16)
        (List.mem_range.mpr (Nat.mod_lt m (by decide)))

/-- Of white space, only blanks are written as they are. -/
theorem eq_blank_of_mem_writeChar {c d : Char} (hd : d ∈ writeChar c) (hbreak : isBreak d = true) :
    c = ' ' ∧ d = ' ' := by
  have escaped {e : Char} (h : d ∈ ['\\', e]) (he : isBreak e = false) : False := by
    rcases List.mem_cons.mp h with rfl | h
    · exact absurd hbreak (by decide)
    · obtain rfl := List.mem_singleton.mp h
      exact absurd (hbreak.symm.trans he) nofun
  unfold writeChar at hd
  split_ifs at hd with _ _ _ _ _ _ _ hcontrol
  -- the escapes of one letter
  any_goals exact (escaped hd (by decide)).elim
  · obtain rfl | rfl | hd : d = '\\' ∨ d = 'u' ∨ d ∈ Text.hexDigits 4 c.toNat := by simpa using hd
    · exact absurd hbreak (by decide)
    · exact absurd hbreak (by decide)
    · exact absurd (hbreak.symm.trans (not_isBreak_hexDigits hd)) nofun
  · -- what is no control is written as it is, and all white space but the blank is a control
    obtain rfl := List.mem_singleton.mp hd
    have hle := toNat_le_of_isBreak hbreak
    have hblank : d = ' ' := by
      rw [← Char.ofNat_toNat d, show d.toNat = 32 by omega]
    exact ⟨hblank, hblank⟩

/-- A written text has a break just if a blank is in it: all others are escaped. -/
theorem hasBreak_writeText : HasBreak (writeText s) ↔ ' ' ∈ s.toList := by
  have hwritten : (writeText s).toList = '"' :: (s.toList.flatMap writeChar ++ ['"']) := by
    simp [writeText]
  rw [HasBreak, hwritten]
  constructor
  · rintro ⟨d, hd, hbreak⟩
    obtain rfl | hd | rfl : d = '"' ∨ d ∈ s.toList.flatMap writeChar ∨ d = '"' := by
      simpa using hd
    · exact absurd hbreak (by decide)
    · obtain ⟨c, hc, hd⟩ := List.mem_flatMap.mp hd
      exact (eq_blank_of_mem_writeChar hd hbreak).1 ▸ hc
    · exact absurd hbreak (by decide)
  · intro h
    refine ⟨' ', ?_, rfl⟩
    have hmem : ' ' ∈ s.toList.flatMap writeChar :=
      List.mem_flatMap.mpr ⟨' ', h, List.mem_singleton.mpr rfl⟩
    simp [hmem]

/-- A whole number is written with digits, and a sign in front. -/
theorem mem_int {n : Int} {c : Char} (h : c ∈ (toString n).toList) :
    c.isDigit = true ∨ c = '-' := by
  have natural {m : Nat} (h : c ∈ (toString m).toList) : c.isDigit = true := by
    have hdigits : (toString m).toList = Nat.toDigits 10 m := String.toList_ofList
    rw [hdigits] at h
    exact Nat.isDigit_of_mem_toDigits (by decide) (by decide) h
  cases n with
  | ofNat m => exact .inl (natural h)
  | negSucc m =>
    have hsign : toString (Int.negSucc m) = "-" ++ toString (m + 1) := rfl
    rw [hsign, String.toList_append, List.mem_append] at h
    exact h.symm.imp natural fun h => List.mem_singleton.mp h

/-- A number is written with a digit at least. -/
theorem int_ne_nil (n : Int) : (toString n).toList ≠ [] := by
  cases n with
  | ofNat m =>
    have hdigits : (toString (Int.ofNat m)).toList = Nat.toDigits 10 m := String.toList_ofList
    rw [hdigits]
    exact Nat.toDigits_ne_nil
  | negSucc m =>
    have hsign : toString (Int.negSucc m) = "-" ++ toString (m + 1) := rfl
    simp [hsign]

/-- No digit is a break. -/
theorem not_isBreak_of_isDigit {c : Char} (h : c.isDigit = true) : isBreak c = false := by
  rw [Bool.eq_false_iff]
  intro hbreak
  have hle := toNat_le_of_isBreak hbreak
  have hge : 48 ≤ c.toNat := by
    simp only [Char.isDigit, Bool.and_eq_true, decide_eq_true_eq] at h
    exact h.1
  omega

/-- A written number has no break. -/
theorem not_isBreak_int {n : Int} {c : Char} (h : c ∈ (toString n).toList) : isBreak c = false := by
  obtain hdigit | rfl := mem_int h
  · exact not_isBreak_of_isDigit hdigit
  · rfl

/-! ### Values -/

/-- Items are written one by one. -/
theorem forall₂_writeItems {xs : List Value} {ts : List String} (h : writeItems xs = .ok ts) :
    List.Forall₂ (fun x t => write x = .ok t) xs ts := by
  induction xs generalizing ts with
  | nil =>
    obtain rfl := Except.ok.inj h
    exact .nil
  | cons x xs ih =>
    rw [writeItems] at h
    cases hx : write x with
    | error c => rw [hx] at h; cases h
    | ok t =>
      cases hxs : writeItems xs with
      | error c => rw [hx, hxs] at h; cases h
      | ok us =>
        rw [hx, hxs] at h
        obtain rfl := Except.ok.inj h
        exact .cons hx (ih hxs)

/-- An entry is written as its key, a colon and its value. -/
theorem writeEntry_text {k : String} {v : Value} {t : String} (h : writeEntry (.text k, v) = .ok t) :
    ∃ u, write v = .ok u ∧ t = writeText k ++ ":" ++ u := by
  rw [writeEntry] at h
  cases hv : write v with
  | error c => rw [hv] at h; cases h
  | ok u =>
    rw [hv] at h
    exact ⟨u, rfl, (Except.ok.inj h).symm⟩

/-- Entries are written one by one. -/
theorem forall₂_writeEntries {es : List (Value × Value)} {ts : List String}
    (h : writeEntries es = .ok ts) : List.Forall₂ (fun e t => writeEntry e = .ok t) es ts := by
  induction es generalizing ts with
  | nil =>
    obtain rfl := Except.ok.inj h
    exact .nil
  | cons e es ih =>
    rw [writeEntries] at h
    cases he : writeEntry e with
    | error c => rw [he] at h; cases h
    | ok t =>
      cases hes : writeEntries es with
      | error c => rw [he, hes] at h; cases h
      | ok us =>
        rw [he, hes] at h
        obtain rfl := Except.ok.inj h
        exact .cons he (ih hes)

/-- Where all texts have a break exactly where their values have a reason, so has the list. -/
theorem exists_break_iff {α : Type} {P : α → Prop} {as : List α} {ts : List String}
    {R : α → String → Prop} (h : List.Forall₂ R as ts)
    (hP : ∀ a ∈ as, ∀ t, R a t → (HasBreak t ↔ P a)) : (∃ t ∈ ts, HasBreak t) ↔ ∃ a ∈ as, P a := by
  induction h with
  | nil => simp
  | cons hat _ ih =>
    obtain ⟨ha, has⟩ := List.forall_mem_cons.mp hP
    simp only [List.mem_cons, exists_eq_or_imp, ha _ hat, ih has]

/-- A list is written as its items in brackets, with commas between them. -/
theorem write_list {xs : List Value} {j : String} (h : write (.list xs) = .ok j) :
    ∃ ts, writeItems xs = .ok ts ∧ j = "[" ++ ",".intercalate ts ++ "]" := by
  rw [write] at h
  cases hxs : writeItems xs with
  | error c => rw [hxs] at h; cases h
  | ok ts =>
    rw [hxs] at h
    exact ⟨ts, rfl, (Except.ok.inj h).symm⟩

/-- A dictionary is written as its entries in braces, with commas between them. -/
theorem write_dict {es : List (Value × Value)} {j : String} (h : write (.dict es) = .ok j) :
    ∃ ts, writeEntries es = .ok ts ∧ j = "\x7b" ++ ",".intercalate ts ++ "\x7d" := by
  rw [write] at h
  cases hes : writeEntries es with
  | error c => rw [hes] at h; cases h
  | ok ts =>
    rw [hes] at h
    exact ⟨ts, rfl, (Except.ok.inj h).symm⟩

theorem write_int {n : Int} {j : String} (h : write (.int n) = .ok j) : j = toString n := by
  rw [write, writeInt] at h
  split at h
  · cases h
  · exact (Except.ok.inj h).symm

/-- White space in serialized data is a blank in one of its texts. -/
theorem hasBreak_write {j : String} (hv : Plain v) (hj : write v = .ok j) :
    HasBreak j ↔ ∃ t, Mentions t v ∧ ' ' ∈ t.toList := by
  have nowhere {j : String} {v : Value} (hj : ¬ HasBreak j) (hv : ∀ t, ¬ Mentions t v) :
      HasBreak j ↔ ∃ t, Mentions t v ∧ ' ' ∈ t.toList :=
    iff_of_false hj fun ⟨t, ht, _⟩ => hv t ht
  induction hv generalizing j with
  | none =>
    obtain rfl := Except.ok.inj hj
    exact nowhere (not_hasBreak_of_all (by decide)) nofun
  | bool b =>
    obtain rfl := Except.ok.inj hj
    exact nowhere (not_hasBreak_of_all (by cases b <;> decide)) nofun
  | int n =>
    obtain rfl := write_int hj
    refine nowhere (fun ⟨c, hc, hbreak⟩ => ?_) nofun
    exact absurd (hbreak.symm.trans (not_isBreak_int hc)) nofun
  | text s =>
    obtain rfl := Except.ok.inj hj
    rw [hasBreak_writeText]
    constructor
    · exact fun h => ⟨s, .text, h⟩
    · rintro ⟨t, ht, h⟩
      cases ht
      exact h
  | list h ih =>
    obtain ⟨ts, hts, rfl⟩ := write_list hj
    have hitems := exists_break_iff (forall₂_writeItems hts) fun x hx t ht => ih x hx ht
    -- neither the brackets nor the commas between the items are white space
    rw [hasBreak_brackets (by decide) (by decide), hasBreak_intercalate, hitems]
    constructor
    · rintro ⟨x, hx, t, ht, hblank⟩
      exact ⟨t, .item hx ht, hblank⟩
    · rintro ⟨t, ht, hblank⟩
      cases ht with
      | item hx ht => exact ⟨_, hx, t, ht, hblank⟩
  | @dict es hkeys h ih =>
    obtain ⟨ts, hts, rfl⟩ := write_dict hj
    have hentry : ∀ e ∈ es, ∀ t, writeEntry e = .ok t → (HasBreak t ↔
        (∃ s, e.1 = .text s ∧ ' ' ∈ s.toList) ∨ ∃ t, Mentions t e.2 ∧ ' ' ∈ t.toList) := by
      rintro ⟨k, v⟩ he t ht
      obtain ⟨s, rfl⟩ := hkeys _ he
      obtain ⟨u, hu, rfl⟩ := writeEntry_text ht
      have hcolon : ¬ HasBreak ":" := not_hasBreak_of_all (by decide)
      have hvalue := ih _ he hu
      rw [hasBreak_append, hasBreak_append, hasBreak_writeText]
      simp [hcolon, hvalue]
    rw [hasBreak_brackets (by decide) (by decide), hasBreak_intercalate,
      exists_break_iff (forall₂_writeEntries hts) hentry]
    constructor
    · rintro ⟨⟨k, v⟩, he, ⟨s, rfl, hblank⟩ | ⟨t, ht, hblank⟩⟩
      · exact ⟨s, .key he, hblank⟩
      · exact ⟨t, .entry he ht, hblank⟩
    · rintro ⟨t, ht, hblank⟩
      cases ht with
      | key he => exact ⟨_, he, .inl ⟨t, rfl, hblank⟩⟩
      | entry he ht => exact ⟨_, he, .inr ⟨t, ht, hblank⟩⟩

/-- Serialized data begins with the first character of a constant, with a quote or a bracket that
opens, or as a number does. -/
theorem exists_head_write {j : String} (hv : Plain v) (hj : write v = .ok j) :
    ∃ c u, j.toList = c :: u ∧ (c.isDigit = true ∨ c ∈ ['-', 'n', 't', 'f', '"', '[', '\x7b']) := by
  cases hv with
  | none =>
    obtain rfl := Except.ok.inj hj
    exact ⟨'n', "ull".toList, rfl, .inr (by decide)⟩
  | bool b =>
    obtain rfl := Except.ok.inj hj
    cases b with
    | true => exact ⟨'t', "rue".toList, rfl, .inr (by decide)⟩
    | false => exact ⟨'f', "alse".toList, rfl, .inr (by decide)⟩
  | int n =>
    obtain rfl := write_int hj
    obtain ⟨c, u, hu⟩ := List.exists_cons_of_ne_nil (int_ne_nil n)
    refine ⟨c, u, hu, (mem_int (n := n) (hu ▸ List.mem_cons_self)).imp_right ?_⟩
    rintro rfl
    decide
  | text s =>
    obtain rfl := Except.ok.inj hj
    exact ⟨'"', s.toList.flatMap writeChar ++ ['"'], by simp [writeText], .inr (by decide)⟩
  | list h =>
    obtain ⟨ts, -, rfl⟩ := write_list hj
    exact ⟨'[', (",".intercalate ts ++ "]").toList, by simp [String.append_assoc], .inr (by decide)⟩
  | dict hkeys h =>
    obtain ⟨ts, -, rfl⟩ := write_dict hj
    exact ⟨'\x7b', (",".intercalate ts ++ "\x7d").toList, by simp [String.append_assoc],
      .inr (by decide)⟩

/-- Serialized data begins with a character that is no white space. -/
theorem head_write {j : String} (hv : Plain v) (hj : write v = .ok j) :
    ∃ c u, j.toList = c :: u ∧ isBreak c = false := by
  obtain ⟨c, u, hu, hdigit | hc⟩ := exists_head_write hv hj
  · exact ⟨c, u, hu, not_isBreak_of_isDigit hdigit⟩
  · refine ⟨c, u, hu, ?_⟩
    simp only [List.mem_cons, List.not_mem_nil, or_false] at hc
    rcases hc with rfl | rfl | rfl | rfl | rfl | rfl | rfl <;> rfl

end Trellis.Json
