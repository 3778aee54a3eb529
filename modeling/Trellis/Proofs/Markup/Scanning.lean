import Trellis.Proofs.Sharing.Runs

/-!
# Proofs — Markup — Scanning

The tags in markup, as a scan from front to end meets them, and when they are well nested.

A scan is strict: brackets stand around tags and comments only.  What it meets in a text is said of
the text in front of any other (`Scans`), so that it is known of pieces that are joined.
-/

namespace Trellis.Markup

/-- A tag that is met in markup. -/
inductive Mark where
  | opening (name : String)
  | closing (name : String)
  deriving DecidableEq, Repr

/-- What stands between brackets: a slash and a name, or a name and attributes behind a blank. -/
def Mark.ofChars : List Char → Mark
  | '/' :: s => closing (String.ofList s)
  | s => opening (String.ofList (s.takeWhile fun c => !Text.isBlank c))

/-- Where a scan is. -/
inductive Scan where
  | text
  /-- Between brackets, behind what has been read. -/
  | tag (read : List Char)
  /-- In a comment, behind so many dashes. -/
  | comment (dashes : Nat)

namespace Scan

/-- A tag is read on, and becomes a comment by its first three characters. -/
def within (read : List Char) : Scan :=
  if read = ['!', '-', '-'] then comment 0 else tag read

/-- The tags that are met, unless a bracket stands elsewhere or nothing ends a tag or comment. -/
def run : Scan → List Char → Option (List Mark)
  | text, [] => some []
  | text, c :: s => if c = '<' then run (tag []) s else if c = '>' then none else run text s
  | tag _, [] => none
  | tag read, c :: s =>
    if c = '>' then (run text s).map (Mark.ofChars read :: ·)
    else if c = '<' then none
    else run (within (read ++ [c])) s
  | comment _, [] => none
  | comment dashes, c :: s =>
    if c = '-' then run (comment (dashes + 1)) s
    else if c = '>' && 2 ≤ dashes then run text s
    else run (comment 0) s
termination_by structural _ s => s

end Scan

/-- The tags in markup. -/
def marks (html : String) : Option (List Mark) :=
  Scan.text.run html.toList

/-- Tags are well nested behind open ones, the last of which stands at the front: each is closed in
its turn, unless it is void and never closed. -/
def balanced (isVoid : String → Bool) : (isOpen : List String) → List Mark → Bool
  | [], [] => true
  | _ :: _, [] => false
  | os, .opening name :: ms => balanced isVoid (if isVoid name then os else name :: os) ms
  | [], .closing _ :: _ => false
  | o :: os, .closing name :: ms => o = name && balanced isVoid os ms
termination_by structural _ ms => ms

/-- The tags in markup are well nested, and none of them stays open. -/
def isNested (isVoid : String → Bool) (html : String) : Bool :=
  (marks html).any (balanced isVoid [])

/-! ### Texts that are scanned -/

/-- No brackets. -/
def isPlain (s : List Char) : Bool :=
  s.all fun c => c != '<' && c != '>'

/-- A scan meets `ms` in `s`, whatever follows. -/
def Scans (s : List Char) (ms : List Mark) : Prop :=
  ∀ t, Scan.text.run (s ++ t) = (Scan.text.run t).map (ms ++ ·)

namespace Scans

variable {s t : List Char} {ms ns : List Mark}

theorem nil : Scans [] [] := by
  intro t
  simp

/-- Marks are scanned of both parts, one behind the other. -/
theorem append (hs : Scans s ms) (ht : Scans t ns) : Scans (s ++ t) (ms ++ ns) := by
  intro u
  rw [List.append_assoc, hs, ht, Option.map_map]
  simp [Function.comp_def]

/-- What is scanned of a whole text are its marks. -/
theorem run_eq (h : Scans s ms) : Scan.text.run s = some ms := by
  simpa [Scan.run] using h []

/-- Nothing is met without brackets. -/
theorem of_isPlain (h : isPlain s = true) : Scans s [] := by
  induction s with
  | nil => exact nil
  | cons c s ih =>
    intro t
    simp only [isPlain, List.all_cons, Bool.and_eq_true, bne_iff_ne] at h
    simpa [Scan.run, h.1.1, h.1.2] using ih h.2 t

end Scans

/-! ### Tags and comments -/

theorem Scan.within_of_head {read : List Char} (h : read.head? ≠ some '!') :
    Scan.within read = .tag read := by
  rw [Scan.within, if_neg]
  rintro rfl
  exact h rfl

/-- A tag is read to its end. -/
theorem Scan.run_tag {s : List Char} (hs : isPlain s = true) (t : List Char) :
    ∀ read, (read ++ s).head? ≠ some '!' →
      (Scan.tag read).run (s ++ '>' :: t) =
        (Scan.text.run t).map (Mark.ofChars (read ++ s) :: ·) := by
  induction s with
  | nil => intro read _; simp [Scan.run]
  | cons c s ih =>
    intro read hr
    simp only [isPlain, List.all_cons, Bool.and_eq_true, bne_iff_ne] at hs
    have hhead : (read ++ [c]).head? ≠ some '!' := by
      cases read with
      | nil => simpa using hr
      | cons d read => simpa using hr
    rw [List.cons_append, Scan.run, if_neg hs.1.2, if_neg hs.1.1, within_of_head hhead,
      ih hs.2 _ (by simpa using hr)]
    simp

/-- What stands between brackets is one tag. -/
theorem scans_brackets {s : List Char} (hs : isPlain s = true) (h : s.head? ≠ some '!') :
    Scans ('<' :: (s ++ ['>'])) [Mark.ofChars s] := by
  intro t
  have hrun := Scan.run_tag hs t [] (by simpa using h)
  simpa [Scan.run] using hrun

/-- A comment is read to its end. -/
theorem Scan.run_comment {s : List Char} (hs : isPlain s = true) (t : List Char) :
    ∀ dashes, (Scan.comment dashes).run (s ++ '-' :: '-' :: '>' :: t) = Scan.text.run t := by
  induction s with
  | nil => intro dashes; simp [Scan.run]
  | cons c s ih =>
    intro dashes
    simp only [isPlain, List.all_cons, Bool.and_eq_true, bne_iff_ne] at hs
    rw [List.cons_append, Scan.run]
    split
    · exact ih hs.2 _
    · rw [if_neg (by simp [hs.1.2])]
      exact ih hs.2 _

/-- Comments are skipped. -/
theorem scans_comment {s : List Char} (hs : isPlain s = true) :
    Scans ('<' :: '!' :: '-' :: '-' :: (s ++ ['-', '-', '>'])) [] := by
  intro t
  have hrun := Scan.run_comment hs t 0
  simpa [Scan.run, Scan.within] using hrun

/-! ### Nesting -/

/-- Tags that leave open what was open. -/
def Neutral (isVoid : String → Bool) (ms : List Mark) : Prop :=
  ∀ os ns, balanced isVoid os (ms ++ ns) = balanced isVoid os ns

namespace Neutral

variable {isVoid : String → Bool} {ms ns : List Mark} {name : String}

theorem nil : Neutral isVoid [] := fun _ _ => rfl

theorem append (hm : Neutral isVoid ms) (hn : Neutral isVoid ns) : Neutral isVoid (ms ++ ns) := by
  intro os ks
  rw [List.append_assoc, hm, hn]

/-- A void tag, and what is written behind it. -/
theorem of_void (hv : isVoid name = true) (hm : Neutral isVoid ms) :
    Neutral isVoid (.opening name :: ms) := by
  intro os ns
  cases os <;> simp [balanced, hv, hm _ ns]

/-- A tag with what is written in it. -/
theorem of_tag (hv : isVoid name = false) (hm : Neutral isVoid ms) :
    Neutral isVoid (.opening name :: (ms ++ [.closing name])) := by
  intro os ns
  have h := hm (name :: os) (.closing name :: ns)
  cases os <;> simpa [balanced, hv] using h

theorem balanced_nil (hm : Neutral isVoid ms) : balanced isVoid [] ms = true := by
  simpa [balanced] using hm [] []

end Neutral

/-- Markup with neutral tags is well nested. -/
theorem isNested_of_scans {isVoid : String → Bool} {s : String} {ms : List Mark}
    (hs : Scans s.toList ms) (hm : Neutral isVoid ms) : isNested isVoid s = true := by
  rw [isNested, marks, hs.run_eq]
  exact hm.balanced_nil

example : isNested (· = "br") "<p>a<br><!-- b --></p>" = true := by decide
example : isNested (· = "br") "<p><b></p></b>" = false := by decide
example : isNested (· = "br") "<br></br>" = false := by decide

end Trellis.Markup
