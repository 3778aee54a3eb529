import Trellis.Json.Reader
import Trellis.Proofs.Json.Breaks
import Trellis.Proofs.Sharing.DictForm
import Trellis.Proofs.Syntax.Literals
import Trellis.Proofs.Text.Cutting

/-!
# Proofs — Json — Reading

Serialized texts are read as what they were written for (`Json.read_write`), for the data that such
texts stand for one to one (`Json.Lossless`).

A step reads a part of the text in front of what may stand behind a part: nothing, a comma, or a
closing bracket (`Reads`).  So the parts of a container are read one after the other, whatever they
are, and the whole is read by induction on the data.  The depth that a reader is given is larger
than the text is long, and the texts of the parts are shorter than that of the whole.
-/

namespace Trellis.Json

open Trellis.Text (isAsciiDigit hexDigits)
open Trellis.Decimal (digitLimit of_isAsciiDigit isNumeral_toDigits)

/-- Data that serialized text gives back: texts, truth values, the empty value, whole numbers of no
more digits than are written, and lists and dictionaries of such data, with distinct texts as
keys. -/
inductive Lossless : Value → Prop where
  | none : Lossless .none
  | bool (b : Bool) : Lossless (.bool b)
  | int {n : Int} (h : n.natAbs < 10 ^ digitLimit) : Lossless (.int n)
  | text (s : String) : Lossless (.text s)
  | list {xs : List Value} (h : ∀ x ∈ xs, Lossless x) : Lossless (.list xs)
  | dict {es : List (Value × Value)} (hkeys : ∀ e ∈ es, ∃ s, e.1 = .text s)
      (hdistinct : (es.map (·.1)).Nodup) (h : ∀ e ∈ es, Lossless e.2) : Lossless (.dict es)

/-- Lossless data is plain. -/
theorem Lossless.plain {v : Value} (h : Lossless v) : Plain v := by
  induction h with
  | none => exact .none
  | bool b => exact .bool b
  | int _ => exact .int _
  | text s => exact .text s
  | list _ ih => exact .list ih
  | dict hkeys _ _ ih => exact .dict hkeys ih

/-! ### What stands behind a part -/

/-- Nothing stands behind a part, or what ends it. -/
def Closes (rest : List Char) : Prop :=
  ∀ c ∈ rest.head?, c = ',' ∨ c = ']' ∨ c = '}'

theorem closes_nil : Closes [] := nofun

/-- A comma or a closing bracket closes what is in front of it. -/
theorem closes_cons {c : Char} {rest : List Char} :
    Closes (c :: rest) ↔ c = ',' ∨ c = ']' ∨ c = '}' := by
  simp [Closes]

/-- The step reads `t` as `a` wherever `t` may stand. -/
def Reads {α : Type} (step : Step α) (t : List Char) (a : α) : Prop :=
  ∀ rest, Closes rest → step (t ++ rest) = .ok (a, rest)

/-- A part begins with a character that is no white space and closes nothing. -/
def Opens (t : List Char) : Prop :=
  ∃ c u, t = c :: u ∧ isGap c = false ∧ c ≠ ']' ∧ c ≠ '}'

/-- What begins with no white space is not skipped. -/
theorem skip_of_opens {t : List Char} (ht : Opens t) (rest : List Char) :
    skip (t ++ rest) = t ++ rest := by
  obtain ⟨c, u, rfl, hc, -⟩ := ht
  simp [skip, hc]

/-! ### Texts -/

/-- How a character is written in a text, and as what it is read. -/
inductive WrittenAs (c : Char) : List Char → Piece → Prop where
  | letter {e : Char} (h : escaped? e = some c) (he : 0x20 ≤ e.toNat) :
      WrittenAs c ['\\', e] (.char c)
  | number (h : c.toNat < 0x20) :
      WrittenAs c ('\\' :: 'u' :: hexDigits 4 c.toNat) (.unit c.toNat)
  | plain (hquote : c ≠ '"') (hslash : c ≠ '\\') (h : 0x20 ≤ c.toNat) : WrittenAs c [c] (.char c)

/-- Every character is written in one of the ways. -/
theorem exists_writtenAs (c : Char) : ∃ p, WrittenAs c (writeChar c) p := by
  have coded {n : Nat} (h : c.toNat = n) : Char.ofNat n = c := by rw [← h, Char.ofNat_toNat]
  unfold writeChar
  split_ifs with hquote hslash hn hr ht hf hb hcontrol
  · exact ⟨_, .letter (congrArg some hquote.symm) (by decide)⟩
  · exact ⟨_, .letter (congrArg some hslash.symm) (by decide)⟩
  · exact ⟨_, .letter (congrArg some hn.symm) (by decide)⟩
  · exact ⟨_, .letter (congrArg some hr.symm) (by decide)⟩
  · exact ⟨_, .letter (congrArg some ht.symm) (by decide)⟩
  · exact ⟨_, .letter (congrArg some (coded hf)) (by decide)⟩
  · exact ⟨_, .letter (congrArg some (coded hb)) (by decide)⟩
  · exact ⟨_, .number hcontrol⟩
  · exact ⟨_, .plain hquote hslash (Nat.le_of_not_lt hcontrol)⟩

/-- Four hexadecimal digits are read as their number. -/
theorem unit?_hexDigits : ∀ n < 0x20, ∃ a b c d,
    hexDigits 4 n = [a, b, c, d] ∧ unit? a b c d = some n := by
  have h : ∀ n < 0x20, hexDigits 4 n = ['0', '0', Text.hexDigit (n / 16), Text.hexDigit (n % 16)] ∧
      unit? '0' '0' (Text.hexDigit (n / 16)) (Text.hexDigit (n % 16)) = some n := by
    decide
  exact fun n hn => ⟨_, _, _, _, h n hn⟩

variable {c : Char} {t rest : List Char} {p : Piece} {ps : List Piece}

/-- A character is read from the way in which it is written, in front of more. -/
theorem WrittenAs.textPieces_append (h : WrittenAs c t p) (opening : Nat) (hrest : rest ≠ []) :
    textPieces opening (t ++ rest) = consPiece p (textPieces opening rest) := by
  cases h with
  | @letter e he hcode =>
    have hu : e ≠ 'u' := by
      rintro rfl
      cases he
    show textPieces opening ('\\' :: e :: rest) = _
    rw [textPieces, he]
    simp [hu]
  | number hc =>
    obtain ⟨a, b, d, e, hdigits, hunit⟩ := unit?_hexDigits c.toNat hc
    show textPieces opening ('\\' :: 'u' :: (hexDigits 4 c.toNat ++ rest)) = _
    rw [hdigits]
    show textPieces opening ('\\' :: 'u' :: a :: b :: d :: e :: rest) = _
    rw [textPieces, hunit]
    simp [hrest]
  | plain hquote hslash hc =>
    show textPieces opening (c :: rest) = _
    rw [textPieces]
    · simp [Nat.not_lt.mpr hc]
    · simp [hquote]
    · simp [hslash]
    · simp [hslash]
    · simp [hslash]

/-- Escapes of controls are no halves of pairs. -/
theorem joinPieces_cons (h : WrittenAs c t p) (ps : List Piece) :
    joinPieces (p :: ps) = c :: joinPieces ps := by
  cases h with
  | letter _ _ => rfl
  | plain _ _ _ => rfl
  | number hc =>
    have hhalf : ¬ 0xd800 ≤ c.toNat := by omega
    have hcode : Text.ofCodePoint c.toNat = c := by
      have hfirst : ¬ Text.firstHalf ≤ c.toNat := hhalf
      simp [Text.ofCodePoint, hfirst, Char.ofNat_toNat]
    cases ps with
    | nil => simp [joinPieces, hcode]
    | cons q ps => cases q <;> simp [joinPieces, hcode, hhalf]

/-- The characters of a text are read up to the closing quote. -/
theorem exists_textPieces (opening : Nat) (s rest : List Char) : ∃ ps,
    textPieces opening (s.flatMap writeChar ++ '"' :: rest) = .ok (ps, rest) ∧
      joinPieces ps = s := by
  induction s with
  | nil => exact ⟨[], rfl, rfl⟩
  | cons c s ih =>
    obtain ⟨ps, hread, hjoin⟩ := ih
    obtain ⟨p, hp⟩ := exists_writtenAs c
    refine ⟨p :: ps, ?_, ?_⟩
    · rw [List.flatMap_cons, List.append_assoc, hp.textPieces_append opening (by simp), hread]
      rfl
    · rw [joinPieces_cons hp, hjoin]

/-- A written text is read up to its quote. -/
theorem text_writeText (s : String) (rest : List Char) :
    text (s.toList.flatMap writeChar ++ '"' :: rest) = .ok (s, rest) := by
  obtain ⟨ps, hread, hjoin⟩ :=
    exists_textPieces ((s.toList.flatMap writeChar ++ '"' :: rest).length + 1) s.toList rest
  rw [text, hread]
  simp [hjoin]

/-- It stands between quotes. -/
theorem toList_writeText (s : String) :
    (writeText s).toList = '"' :: (s.toList.flatMap writeChar ++ ['"']) := by
  simp [writeText]

/-! ### Numbers -/

/-- What closes is no digit. -/
theorem Closes.digits (h : Closes rest) : ∀ c ∈ rest.head?, isAsciiDigit c = false := by
  intro c hc
  rcases h c hc with rfl | rfl | rfl <;> rfl

/-- It begins no places behind a point. -/
theorem Closes.placeDigits (h : Closes rest) : placeDigits rest = ([], rest) := by
  cases rest with
  | nil => rfl
  | cons c rest => rcases closes_cons.mp h with rfl | rfl | rfl <;> rfl

/-- Nor does it begin an exponent. -/
theorem Closes.exponentPart (h : Closes rest) : exponentPart rest = (none, rest) := by
  cases rest with
  | nil => rfl
  | cons c rest => rcases closes_cons.mp h with rfl | rfl | rfl <;> rfl

/-- Only zero is written with a zero in front. -/
theorem toDigits_head (m : Nat) (hm : m ≠ 0) (ds : List Char) : Nat.toDigits 10 m ≠ '0' :: ds := by
  induction m using Nat.strong_induction_on generalizing ds with
  | h m ih =>
    rw [Nat.toDigits_eq_if (by decide)]
    split_ifs with hlt
    · simp [hm]
    · obtain ⟨c, u, hu⟩ := List.exists_cons_of_ne_nil (Nat.toDigits_ne_nil (n := m / 10) (b := 10))
      have hfirst : c ≠ '0' := by
        rintro rfl
        exact ih (m / 10) (by omega) (by omega) u hu
      rw [hu]
      exact fun h => hfirst (List.cons.inj h).1

/-- The digits of a number are read whole. -/
theorem wholeDigits_toDigits (m : Nat) (h : Closes rest) :
    wholeDigits (Nat.toDigits 10 m ++ rest) = (Nat.toDigits 10 m, rest) := by
  by_cases hm : m = 0
  · rw [hm, Nat.toDigits_zero]
    rfl
  · have hdigits := Expr.Token.span_append (isNumeral_toDigits m).digits h.digits
    rw [wholeDigits, digits, hdigits.1, hdigits.2]
    intro s hs
    obtain ⟨c, u, hu⟩ := List.exists_cons_of_ne_nil (isNumeral_toDigits m).ne_nil
    rw [hu, List.cons_append] at hs
    exact toDigits_head m hm u ((List.cons.inj hs).1 ▸ hu)

/-- They have its value. -/
theorem ofDigits_toDigits (m : Nat) :
    Decimal.ofDigits 10 ((Nat.toDigits 10 m).filterMap Text.decimalValue?) = m := by
  have hvalues : (Nat.toDigits 10 m).filterMap Text.decimalValue? =
      (Nat.toDigits 10 m).map fun c => c.toNat - '0'.toNat := by
    rw [← List.filterMap_eq_map]
    exact List.filterMap_congr fun c hc => if_pos ((isNumeral_toDigits m).digits c hc)
  rw [hvalues, Decimal.ofDigits_map, Nat.ofDigitChars_ten_toDigits]

/-- A whole number is read from its digits, if it has no more than may be read. -/
theorem magnitude_toDigits {m : Nat} (hm : m < 10 ^ digitLimit) (h : Closes rest) (negative : Bool) :
    magnitude negative (Nat.toDigits 10 m ++ rest) =
      .ok (.int (if negative then -m else m), rest) := by
  have hlimit : ¬ digitLimit < (Nat.toDigits 10 m).length :=
    Nat.not_lt.mpr ((Nat.length_toDigits_le_iff (by decide) (by decide)).mpr hm)
  have hvalue := ofDigits_toDigits m
  obtain ⟨d, ds, hds⟩ := List.exists_cons_of_ne_nil (isNumeral_toDigits m).ne_nil
  rw [hds] at hlimit hvalue
  rw [magnitude, wholeDigits_toDigits m h, hds]
  simp only [h.placeDigits, h.exponentPart, List.isEmpty_nil, Option.isNone_none, Bool.and_self,
    if_true, if_neg hlimit, hvalue]

/-- What does not begin as a constant does is no constant. -/
theorem findSome?_constants {c : Char} (hc : c ∉ ['n', 't', 'f', 'N', 'I', '-']) (s : List Char) :
    (constants.findSome? fun p => word? p.1 p.2 (c :: s)) = none := by
  have hne : ∀ d ∈ ['n', 't', 'f', 'N', 'I', '-'], d ≠ c := fun d hd h => hc (h ▸ hd)
  simp_all [constants, word?]

/-- So the number is read, if its digits are not too many. -/
theorem scalar_toDigits {m : Nat} (hm : m < 10 ^ digitLimit) (h : Closes rest) :
    scalar (Nat.toDigits 10 m ++ rest) = .ok (.int m, rest) := by
  have hmagnitude := magnitude_toDigits hm h false
  obtain ⟨d, ds, hds⟩ := List.exists_cons_of_ne_nil (isNumeral_toDigits m).ne_nil
  have hd := (isNumeral_toDigits m).digits d (hds ▸ List.mem_cons_self)
  have hfirst : d ∉ ['n', 't', 'f', 'N', 'I', '-'] :=
    of_isAsciiDigit (P := fun d => d ∉ ['n', 't', 'f', 'N', 'I', '-']) (by decide) hd
  rw [hds] at hmagnitude ⊢
  rw [List.cons_append, scalar, findSome?_constants hfirst]
  · exact hmagnitude
  · intro r hr
    obtain rfl : d = '-' := (List.cons.inj hr).1
    exact hfirst (by decide)

/-- With a minus sign in front, its negative is read. -/
theorem scalar_neg_toDigits {m : Nat} (hm : m < 10 ^ digitLimit) (h : Closes rest) :
    scalar ('-' :: (Nat.toDigits 10 m ++ rest)) = .ok (.int (-m), rest) := by
  have hmagnitude := magnitude_toDigits hm h true
  obtain ⟨d, ds, hds⟩ := List.exists_cons_of_ne_nil (isNumeral_toDigits m).ne_nil
  have hd := (isNumeral_toDigits m).digits d (hds ▸ List.mem_cons_self)
  have hfirst : d ≠ 'I' := of_isAsciiDigit (P := fun d => d ≠ 'I') (by decide) hd
  have hnone : (constants.findSome? fun p => word? p.1 p.2 ('-' :: d :: (ds ++ rest))) = none := by
    simp [constants, word?, hfirst.symm]
  rw [hds] at hmagnitude ⊢
  rw [List.cons_append, scalar, hnone]
  exact hmagnitude

/-! ### Containers -/

@[simp] theorem ok_bind {α β : Type} (x : α) (f : α → Except Problem β) :
    (Except.ok x >>= f) = f x :=
  rfl

section Parts

variable {α : Type} {part : Step α} {close : Char} {as : List α} {ts : List String}

/-- Each part is no longer than the whole. -/
theorem length_le_intercalate {t : String} (h : t ∈ ts) :
    t.length ≤ (",".intercalate ts).length := by
  induction ts with
  | nil => cases h
  | cons u ts ih =>
    cases ts with
    | nil => simp_all
    | cons w ts =>
      rw [String.intercalate_cons_cons, String.length_append, String.length_append]
      rcases List.mem_cons.mp h with rfl | h
      · omega
      · exact Nat.le_trans (ih h) (Nat.le_add_left _ _)

/-- There are no more parts than characters. -/
theorem length_le_flatMap (ts : List String) :
    ts.length ≤ (ts.flatMap fun t => ',' :: t.toList).length := by
  induction ts with
  | nil => simp
  | cons t ts ih =>
    rw [List.flatMap_cons, List.length_append, List.length_cons, List.length_cons]
    omega

/-- The parts after the first are read up to the bracket that closes them. -/
theorem moreParts_reads (hclose : close = ']' ∨ close = '\x7d')
    (h : List.Forall₂ (fun a t => Reads part t.toList a ∧ Opens t.toList) as ts) {fuel : Nat}
    (hfuel : as.length < fuel) :
    moreParts part close fuel (ts.flatMap (fun t => ',' :: t.toList) ++ close :: rest) =
      .ok (as, rest) := by
  have hbracket : isGap close = false ∧ close ≠ ',' := by rcases hclose with rfl | rfl <;> decide
  have hskip (s : List Char) : skip (close :: s) = close :: s := by simp [skip, hbracket.1]
  induction h generalizing fuel with
  | nil =>
    obtain ⟨fuel, rfl⟩ := Nat.exists_eq_succ_of_ne_zero (Nat.ne_of_gt hfuel)
    simp [moreParts, hskip]
  | @cons a t as ts hat h ih =>
    obtain ⟨fuel, rfl⟩ := Nat.exists_eq_succ_of_ne_zero (Nat.ne_of_gt (Nat.zero_lt_of_lt hfuel))
    obtain ⟨hread, hopens⟩ := hat
    have hrest : Closes (ts.flatMap (fun t => ',' :: t.toList) ++ close :: rest) := by
      cases ts with
      | nil => exact closes_cons.mpr (.inr hclose)
      | cons _ _ => exact closes_cons.mpr (.inl rfl)
    have hmore := ih (Nat.lt_of_succ_lt_succ hfuel)
    have hcomma (s : List Char) : skip (',' :: s) = ',' :: s := rfl
    rw [List.flatMap_cons, List.append_assoc, moreParts]
    simp only [List.cons_append, hcomma, List.head?_cons, Option.some.injEq, hbracket.2.symm,
      if_false, if_true, List.tail_cons, skip_of_opens hopens, hread _ hrest, hmore, ok_bind]
    rfl

/-- The parts of a container are read one after the other, up to the bracket that closes them. -/
theorem parts_reads (hclose : close = ']' ∨ close = '\x7d')
    (h : List.Forall₂ (fun a t => Reads part t.toList a ∧ Opens t.toList) as ts) :
    parts part close ((",".intercalate ts).toList ++ close :: rest) = .ok (as, rest) := by
  have hbracket : isGap close = false := by rcases hclose with rfl | rfl <;> decide
  cases h with
  | nil => simp [parts, skip, hbracket]
  | @cons a t as ts hat h =>
    obtain ⟨hread, hopens⟩ := hat
    have hinter : (",".intercalate (t :: ts)).toList =
        t.toList ++ ts.flatMap fun u => ',' :: u.toList := by
      rw [show "," = String.singleton ',' from rfl, Text.intercalate_singleton,
        String.toList_ofList]
    -- behind the first part stands a comma or the bracket, where any part ends
    have hrest : Closes (ts.flatMap (fun u => ',' :: u.toList) ++ close :: rest) := by
      cases ts with
      | nil => exact closes_cons.mpr (.inr hclose)
      | cons _ _ => exact closes_cons.mpr (.inl rfl)
    have hlength : as.length ≤ (ts.flatMap (fun u => ',' :: u.toList) ++ close :: rest).length := by
      rw [h.length_eq, List.length_append]
      exact Nat.le_trans (length_le_flatMap ts) (Nat.le_add_right _ _)
    have hmore : moreParts part close _ (ts.flatMap (fun u => ',' :: u.toList) ++ close :: rest) =
        .ok (_, rest) :=
      moreParts_reads hclose h (Nat.lt_succ_of_le hlength)
    -- a container with parts does not look empty
    have hfirst : (t.toList ++ (ts.flatMap (fun u => ',' :: u.toList) ++ close :: rest)).head? ≠
        some close := by
      obtain ⟨c, u, hu, -, hc⟩ := hopens
      rw [hu]
      rintro ⟨⟩
      exact hclose.elim hc.1 hc.2
    rw [hinter, List.append_assoc, parts]
    simp only [skip_of_opens hopens, if_neg hfirst, hread _ hrest, hmore, ok_bind]
    rfl

end Parts

/-! ### Data -/

variable {v : Value} {j : String}

/-- Written data begins with no white space. -/
theorem Plain.opens (hv : Plain v) (hj : write v = .ok j) : Opens j.toList := by
  obtain ⟨c, u, hu, hc⟩ := exists_head_write hv hj
  have hother : c ∉ [' ', '\t', '\n', '\r', ']', '\x7d'] := by
    intro hmem
    simp only [List.mem_cons, List.not_mem_nil, or_false] at hmem
    rcases hmem with rfl | rfl | rfl | rfl | rfl | rfl <;> exact absurd hc (by decide)
  refine ⟨c, u, hu, ?_, ?_⟩ <;> simp_all [isGap]

/-- What begins with neither a quote nor a bracket is a scalar. -/
theorem value_eq_scalar {c : Char} (h : c ∉ ['"', '[', '\x7b']) (depth : Nat) (s : List Char) :
    value (depth + 1) (c :: s) = scalar (c :: s) := by
  rw [value] <;> simp_all

/-- An entry is read in its place if its value is. -/
theorem reads_entry {depth : Nat} (k : String) (hread : Reads (value depth) j.toList v)
    (hopens : Opens j.toList) :
    Reads (entry (value depth)) (writeText k ++ ":" ++ j).toList (.text k, v) := by
  intro rest hrest
  have hwritten : (writeText k ++ ":" ++ j).toList ++ rest =
      '"' :: (k.toList.flatMap writeChar ++ '"' :: ':' :: (j.toList ++ rest)) := by
    simp [toList_writeText]
  have hcolon (s : List Char) : skip (':' :: s) = ':' :: s := rfl
  rw [hwritten, entry, text_writeText]
  simp only [ok_bind, hcolon, skip_of_opens hopens, hread rest hrest]
  rfl

/-- A text is read in front of what closes. -/
theorem reads_text (s : String) (depth : Nat) :
    Reads (value (depth + 1)) (writeText s).toList (.text s) := by
  intro rest _
  rw [toList_writeText, List.cons_append, List.append_assoc, value]
  show (text (s.toList.flatMap writeChar ++ '"' :: rest) >>= _) = _
  rw [text_writeText]
  rfl

/-- So is a number. -/
theorem reads_int {n : Int} (hn : n.natAbs < 10 ^ digitLimit) (depth : Nat) :
    Reads (value (depth + 1)) (toString n).toList (.int n) := by
  intro rest hrest
  cases n with
  | ofNat m =>
    have hdigits : (toString (Int.ofNat m)).toList = Nat.toDigits 10 m := String.toList_ofList
    obtain ⟨d, ds, hds⟩ := List.exists_cons_of_ne_nil (isNumeral_toDigits m).ne_nil
    have hd := (isNumeral_toDigits m).digits d (hds ▸ List.mem_cons_self)
    have hfirst : d ∉ ['"', '[', '\x7b'] :=
      of_isAsciiDigit (P := fun d => d ∉ ['"', '[', '\x7b']) (by decide) hd
    have hscalar := scalar_toDigits (m := m) hn hrest
    rw [hds] at hscalar
    rw [hdigits, hds, List.cons_append, value_eq_scalar hfirst]
    exact hscalar
  | negSucc m =>
    have hdigits : (toString (Int.negSucc m)).toList = '-' :: Nat.toDigits 10 (m + 1) := by
      have hsign : toString (Int.negSucc m) = "-" ++ toString (m + 1) := rfl
      rw [hsign, String.toList_append]
      exact congrArg _ String.toList_ofList
    rw [hdigits, List.cons_append, value_eq_scalar (by decide)]
    exact scalar_neg_toDigits hn hrest

/-- Distinct texts are distinct keys. -/
theorem distinct_of_nodup {es : List (Value × Value)} (hkeys : ∀ e ∈ es, ∃ s, e.1 = .text s)
    (h : (es.map (·.1)).Nodup) : Value.Distinct (es.map (·.1)) := by
  refine h.imp_of_mem fun {k l} _ hl hne => Bool.eq_false_iff.mpr fun hsame => hne ?_
  obtain ⟨e, he, rfl⟩ := List.mem_map.mp hl
  obtain ⟨s, hs⟩ := hkeys e he
  rw [hs] at hsame ⊢
  exact Value.sameItem_text_iff.mp hsame

/-- Entries with distinct keys all stay. -/
theorem ofEntries_of_distinct {es : List (Value × Value)} (h : Value.Distinct (es.map (·.1))) :
    ofEntries es = .dict es := by
  rw [ofEntries, Slots.foldl_insert_of_distinct (by simpa using h), List.nil_append]

/-- What holds of every part whose text is no longer than the texts together holds of all. -/
theorem forall₂_parts {α : Type} {R S : α → String → Prop} {as : List α} {ts : List String}
    (h : List.Forall₂ R as ts)
    (hS : ∀ a ∈ as, ∀ t, R a t → t.length ≤ (",".intercalate ts).length → S a t) :
    List.Forall₂ S as ts := by
  have hlength : ∀ t ∈ ts, t.length ≤ (",".intercalate ts).length := fun t =>
    length_le_intercalate
  generalize (",".intercalate ts).length = n at hS hlength
  induction h with
  | nil => exact .nil
  | cons hat _ ih =>
    obtain ⟨ha, has⟩ := List.forall_mem_cons.mp hS
    obtain ⟨ht, hts⟩ := List.forall_mem_cons.mp hlength
    exact .cons (ha _ hat ht) (ih has hts)

/-- **Serialized data is read as it was.**  By induction on the data: the texts of its parts are
shorter than that of the whole, so that the depth is large enough for them. -/
theorem reads_write (hv : Lossless v) {depth : Nat} (hj : write v = .ok j)
    (hdepth : j.length < depth) : Reads (value depth) j.toList v := by
  induction hv generalizing j depth with
  | none =>
    obtain rfl := Except.ok.inj hj
    obtain ⟨d, rfl⟩ := Nat.exists_eq_add_one_of_ne_zero (Nat.ne_zero_of_lt hdepth)
    intro rest _
    rfl
  | bool b =>
    obtain rfl := Except.ok.inj hj
    obtain ⟨d, rfl⟩ := Nat.exists_eq_add_one_of_ne_zero (Nat.ne_zero_of_lt hdepth)
    intro rest _
    cases b <;> rfl
  | int h =>
    obtain rfl := write_int hj
    obtain ⟨d, rfl⟩ := Nat.exists_eq_add_one_of_ne_zero (Nat.ne_zero_of_lt hdepth)
    exact reads_int h _
  | text s =>
    obtain rfl := Except.ok.inj hj
    obtain ⟨d, rfl⟩ := Nat.exists_eq_add_one_of_ne_zero (Nat.ne_zero_of_lt hdepth)
    exact reads_text s _
  | @list xs h ih =>
    obtain ⟨ts, hts, rfl⟩ := write_list hj
    obtain ⟨d, rfl⟩ := Nat.exists_eq_add_one_of_ne_zero (Nat.ne_zero_of_lt hdepth)
    intro rest _
    have hitems : List.Forall₂ (fun x t => Reads (value d) t.toList x ∧ Opens t.toList) xs ts := by
      -- the text of an item is shorter by the brackets at least
      refine forall₂_parts (forall₂_writeItems hts) fun x hx t ht hlength =>
        ⟨ih x hx ht ?_, (h x hx).plain.opens ht⟩
      simp only [String.length_append, show "[".length = 1 from rfl] at hdepth
      omega
    have hwritten : ("[" ++ ",".intercalate ts ++ "]").toList ++ rest =
        '[' :: ((",".intercalate ts).toList ++ ']' :: rest) := by
      simp
    rw [hwritten, value, parts_reads (.inl rfl) hitems]
    rfl
  | @dict es hkeys hdistinct h ih =>
    obtain ⟨ts, hts, rfl⟩ := write_dict hj
    obtain ⟨d, rfl⟩ := Nat.exists_eq_add_one_of_ne_zero (Nat.ne_zero_of_lt hdepth)
    intro rest _
    have hentries : List.Forall₂
        (fun e t => Reads (entry (value d)) t.toList e ∧ Opens t.toList) es ts := by
      refine forall₂_parts (forall₂_writeEntries hts) fun ⟨k, v⟩ he t ht hlength => ?_
      obtain ⟨s, rfl⟩ := hkeys _ he
      obtain ⟨u, hu, rfl⟩ := writeEntry_text ht
      refine ⟨reads_entry s (ih _ he hu ?_) ((h _ he).plain.opens hu), ?_⟩
      · -- the key and the colon make the entry longer than its value
        simp only [String.length_append, show "\x7b".length = 1 from rfl] at hlength hdepth
        omega
      · rw [String.append_assoc, String.toList_append, toList_writeText]
        exact ⟨'"', _, rfl, by decide⟩
    have hwritten : ("\x7b" ++ ",".intercalate ts ++ "\x7d").toList ++ rest =
        '\x7b' :: ((",".intercalate ts).toList ++ '\x7d' :: rest) := by
      simp
    rw [hwritten, value, parts_reads (.inr rfl) hentries]
    -- no key comes twice, so that every entry that is read stays
    exact congrArg (fun v => Except.ok (v, rest))
      (ofEntries_of_distinct (distinct_of_nodup hkeys hdistinct))

/-- The whole text of data is read as the data. -/
theorem read_write (hv : Lossless v) (hj : write v = .ok j) : read j = .ok v := by
  have hopens := hv.plain.opens hj
  have hskip : skip j.toList = j.toList := by simpa using skip_of_opens hopens []
  have hdepth : j.length < j.toList.length + 1 := by
    rw [String.length_toList]
    exact Nat.lt_succ_self _
  have hread := reads_write hv hj hdepth [] closes_nil
  rw [List.append_nil] at hread
  have hmark : j.toList.head? ≠ some (Char.ofNat 0xfeff) := by
    obtain ⟨c, u, hu, hc⟩ := exists_head_write hv.plain hj
    rw [hu]
    rintro ⟨⟩
    exact absurd hc (by decide)
  rw [read, readAll, if_neg hmark, hskip, hread]
  rfl

/-- Data is written as one text only. -/
theorem write_injective {w : Value} (hv : Lossless v) (hw : Lossless w) (hj : write v = .ok j)
    (h : write w = write v) : w = v :=
  Except.ok.inj ((read_write hw (h.trans hj)).symm.trans (read_write hv hj))

/-- Items that have texts are written. -/
theorem exists_writeItems {xs : List Value} (h : ∀ x ∈ xs, ∃ t, write x = .ok t) :
    ∃ ts, writeItems xs = .ok ts := by
  induction xs with
  | nil => exact ⟨[], rfl⟩
  | cons x xs ih =>
    obtain ⟨⟨t, ht⟩, hxs⟩ := List.forall_mem_cons.mp h
    obtain ⟨ts, hts⟩ := ih hxs
    refine ⟨t :: ts, ?_⟩
    rw [writeItems, ht, hts]
    rfl

/-- So are entries. -/
theorem exists_writeEntries {es : List (Value × Value)} (h : ∀ e ∈ es, ∃ t, writeEntry e = .ok t) :
    ∃ ts, writeEntries es = .ok ts := by
  induction es with
  | nil => exact ⟨[], rfl⟩
  | cons e es ih =>
    obtain ⟨⟨t, ht⟩, hes⟩ := List.forall_mem_cons.mp h
    obtain ⟨ts, hts⟩ := ih hes
    refine ⟨t :: ts, ?_⟩
    rw [writeEntries, ht, hts]
    rfl

/-- All such data has a text. -/
theorem exists_write (hv : Lossless v) : ∃ j, write v = .ok j := by
  induction hv with
  | none => exact ⟨_, rfl⟩
  | bool b => exact ⟨_, rfl⟩
  | @int n h =>
    have hshort : Value.isLongInt n = false := by simpa [Value.isLongInt] using h
    exact ⟨toString n, by rw [write, writeInt, hshort]; rfl⟩
  | text s => exact ⟨_, rfl⟩
  | list _ ih =>
    obtain ⟨ts, hts⟩ := exists_writeItems ih
    exact ⟨_, by rw [write, hts]; rfl⟩
  | @dict es hkeys _ _ ih =>
    have hentries : ∀ e ∈ es, ∃ t, writeEntry e = .ok t := by
      rintro ⟨k, v⟩ he
      obtain ⟨s, rfl⟩ := hkeys _ he
      obtain ⟨u, hu⟩ := ih _ he
      exact ⟨_, by rw [writeEntry, hu]; rfl⟩
    obtain ⟨ts, hts⟩ := exists_writeEntries hentries
    exact ⟨_, by rw [write, hts]; rfl⟩

end Trellis.Json
