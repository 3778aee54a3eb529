import Trellis.Proofs.Json.Reading

/-!
# Proofs — Json — Spacing

How serialized data is spaced.  No white space stands outside of the texts in quotes, and no control
character stands anywhere (`Json.compact_write`).

A scan from left to right knows which characters stand in quotes.  The text of a part begins and
ends outside of quotes, so that the parts of a text can be scanned one by one.
-/

namespace Trellis.Json

open Trellis.Text (isBlank hexDigits)

/-- Where a character of a serialized text stands: outside of the texts in quotes, in such a text,
or behind a backslash in one. -/
inductive Zone where
  | outside
  | quoted
  | escaped
  deriving DecidableEq

namespace Zone

/-- The zone behind a character. -/
def next : Zone → Char → Zone
  | outside, c => if c = '"' then quoted else outside
  | quoted, c => if c = '"' then outside else if c = '\\' then escaped else quoted
  | escaped, _ => quoted

/-- The zone behind some characters. -/
def after (p : Zone) (s : List Char) : Zone :=
  s.foldl next p

/-- The characters that stand outside of the texts in quotes. -/
def spare : Zone → List Char → List Char
  | _, [] => []
  | outside, c :: s => c :: spare (next outside c) s
  | p, c :: s => spare (p.next c) s

variable {p : Zone} {s t : List Char}

/-- The zone behind two texts is that behind the second one. -/
theorem after_append : p.after (s ++ t) = (p.after s).after t :=
  List.foldl_append

/-- The spare white space of two texts is that of both, each in its zone. -/
theorem spare_append : p.spare (s ++ t) = p.spare s ++ (p.after s).spare t := by
  induction s generalizing p with
  | nil => cases p <;> rfl
  | cons c s ih =>
    have hrest := ih (p := p.next c)
    cases p with
    | outside => exact congrArg (c :: ·) hrest
    | quoted => exact hrest
    | escaped => exact hrest

end Zone

/-- The text ends outside of quotes, as it begins; no white space stands outside of them, and no
control character anywhere. -/
structure Compact (s : List Char) : Prop where
  closed : Zone.outside.after s = .outside
  spare : ∀ c ∈ Zone.outside.spare s, isBlank c = false
  raw : ∀ c ∈ s, 0x20 ≤ c.toNat

variable {s t : List Char} {c : Char} {v : Value} {j : String}

theorem Compact.nil : Compact [] := ⟨rfl, nofun, nofun⟩

/-- Compact texts put together are compact. -/
theorem Compact.append (hs : Compact s) (ht : Compact t) : Compact (s ++ t) where
  closed := by rw [Zone.after_append, hs.closed, ht.closed]
  spare := by
    rw [Zone.spare_append, hs.closed]
    exact List.forall_mem_append.mpr ⟨hs.spare, ht.spare⟩
  raw := List.forall_mem_append.mpr ⟨hs.raw, ht.raw⟩

/-- Visible characters of ASCII are compact, if no quote is among them. -/
theorem compact_of_visible (h : ∀ c ∈ s, (0x20 < c.toNat ∧ c.toNat < 0x7f) ∧ c ≠ '"') :
    Compact s := by
  induction s with
  | nil => exact .nil
  | cons c s ih =>
    obtain ⟨⟨⟨hlow, hhigh⟩, hquote⟩, hs⟩ := List.forall_mem_cons.mp h
    have hblank : isBlank c = false := by
      simp only [isBlank, Text.isSpace, Bool.or_eq_false_iff, Bool.and_eq_false_iff,
        decide_eq_false_iff_not, beq_eq_false_iff_ne]
      omega
    have hc : Compact [c] := by
      refine ⟨if_neg hquote, ?_, ?_⟩
      · simpa [Zone.spare] using hblank
      · simpa using hlow.le
    exact hc.append (ih hs)

/-! ### Texts -/

/-- A character is written in quotes, whatever it is. -/
theorem WrittenAs.quoted {p : Piece} (h : WrittenAs c t p) :
    Zone.quoted.after t = .quoted ∧ Zone.quoted.spare t = [] ∧ ∀ d ∈ t, 0x20 ≤ d.toNat := by
  cases h with
  | letter he hcode => exact ⟨rfl, rfl, by simpa using hcode⟩
  | number hc =>
    have hcodes : ∀ n < 0x20, Zone.quoted.after ('\\' :: 'u' :: hexDigits 4 n) = .quoted ∧
        Zone.quoted.spare ('\\' :: 'u' :: hexDigits 4 n) = [] ∧
        ∀ d ∈ '\\' :: 'u' :: hexDigits 4 n, 0x20 ≤ d.toNat := by
      decide
    exact hcodes c.toNat hc
  | plain hquote hslash hc =>
    have hnext : Zone.quoted.next c = .quoted := by simp [Zone.next, hquote, hslash]
    exact ⟨hnext, rfl, by simpa using hc⟩

/-- What is written between quotes stays between them, and is not spare. -/
theorem quoted_flatMap (s : List Char) :
    Zone.quoted.after (s.flatMap writeChar) = .quoted ∧
      Zone.quoted.spare (s.flatMap writeChar) = [] ∧ ∀ d ∈ s.flatMap writeChar, 0x20 ≤ d.toNat := by
  induction s with
  | nil => exact ⟨rfl, rfl, nofun⟩
  | cons c s ih =>
    obtain ⟨p, hp⟩ := exists_writtenAs c
    obtain ⟨hafter, hspare, hraw⟩ := hp.quoted
    obtain ⟨hafters, hspares, hraws⟩ := ih
    rw [List.flatMap_cons, Zone.after_append, Zone.spare_append, hafter, hspare]
    exact ⟨hafters, hspares, List.forall_mem_append.mpr ⟨hraw, hraws⟩⟩

/-- A written text is compact. -/
theorem compact_writeText (s : String) : Compact (writeText s).toList := by
  obtain ⟨hafter, hspare, hraw⟩ := quoted_flatMap s.toList
  rw [toList_writeText]
  refine ⟨?_, ?_, ?_⟩
  · show Zone.quoted.after (_ ++ ['"']) = .outside
    rw [Zone.after_append, hafter]
    rfl
  · show ∀ c ∈ '"' :: Zone.quoted.spare (_ ++ ['"']), isBlank c = false
    rw [Zone.spare_append, hspare, hafter]
    decide
  · exact List.forall_mem_cons.mpr ⟨by decide, List.forall_mem_append.mpr ⟨hraw, by decide⟩⟩

/-! ### Data -/

/-- Compact texts with commas between them are compact. -/
theorem compact_intercalate {ts : List String} (h : ∀ t ∈ ts, Compact t.toList) :
    Compact (",".intercalate ts).toList := by
  induction ts with
  | nil => exact .nil
  | cons t ts ih =>
    obtain ⟨ht, hts⟩ := List.forall_mem_cons.mp h
    cases ts with
    | nil => simpa using ht
    | cons u ts =>
      rw [String.intercalate_cons_cons, String.toList_append, String.toList_append]
      exact (ht.append (compact_of_visible (by decide))).append (ih hts)

/-- Brackets are compact around what is. -/
theorem compact_brackets {l r : String} (hl : Compact l.toList) (hj : Compact j.toList)
    (hr : Compact r.toList) : Compact (l ++ j ++ r).toList := by
  rw [String.toList_append, String.toList_append]
  exact (hl.append hj).append hr

/-- A written number is compact. -/
theorem compact_int (n : Int) : Compact (toString n).toList := by
  refine compact_of_visible fun c hc => ?_
  obtain hdigit | rfl := mem_int hc
  · simp only [Char.isDigit, Bool.and_eq_true, decide_eq_true_eq] at hdigit
    have hlow : 48 ≤ c.toNat := hdigit.1
    have hhigh : c.toNat ≤ 57 := hdigit.2
    refine ⟨by omega, ?_⟩
    rintro rfl
    exact absurd hlow (by decide)
  · decide

/-- What holds of the text of every part holds of all the texts. -/
theorem forall_texts {α : Type} {R : α → String → Prop} {P : String → Prop} {as : List α}
    {ts : List String} (h : List.Forall₂ R as ts) (hP : ∀ a ∈ as, ∀ t, R a t → P t) :
    ∀ t ∈ ts, P t := by
  induction h with
  | nil => exact nofun
  | cons hat _ ih =>
    obtain ⟨ha, has⟩ := List.forall_mem_cons.mp hP
    exact List.forall_mem_cons.mpr ⟨ha _ hat, ih has⟩

/-- **Serialized data is compact.** -/
theorem compact_write (hv : Plain v) (hj : write v = .ok j) : Compact j.toList := by
  induction hv generalizing j with
  | none =>
    obtain rfl := Except.ok.inj hj
    exact compact_of_visible (by decide)
  | bool b =>
    obtain rfl := Except.ok.inj hj
    exact compact_of_visible (by cases b <;> decide)
  | int n =>
    obtain rfl := write_int hj
    exact compact_int n
  | text s =>
    obtain rfl := Except.ok.inj hj
    exact compact_writeText s
  | list _ ih =>
    obtain ⟨ts, hts, rfl⟩ := write_list hj
    have hitems : ∀ t ∈ ts, Compact t.toList :=
      forall_texts (forall₂_writeItems hts) fun x hx t ht => ih x hx ht
    exact compact_brackets (compact_of_visible (by decide)) (compact_intercalate hitems)
      (compact_of_visible (by decide))
  | @dict es hkeys _ ih =>
    obtain ⟨ts, hts, rfl⟩ := write_dict hj
    have hentries : ∀ t ∈ ts, Compact t.toList := by
      refine forall_texts (forall₂_writeEntries hts) fun ⟨k, v⟩ he t ht => ?_
      obtain ⟨s, rfl⟩ := hkeys _ he
      obtain ⟨u, hu, rfl⟩ := writeEntry_text ht
      -- the colon between key and value has no white space around it
      rw [String.toList_append, String.toList_append]
      exact ((compact_writeText s).append (compact_of_visible (by decide))).append (ih _ he hu)
    exact compact_brackets (compact_of_visible (by decide)) (compact_intercalate hentries)
      (compact_of_visible (by decide))

end Trellis.Json
