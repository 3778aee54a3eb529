import Trellis.Text.Escape
import Trellis.Proofs.Sharing.Runs

/-!
# Proofs — Markup — Attributes

The attributes of an opening tag, as a reader of markup finds them.  White space stands between
attributes.  A value in quotes ends at the closing quote, any other at white space or at the end of
the tag, and the entities in it are decoded.

`decode_escape`: an escaped text is decoded to itself.  Where it stands without quotes it is read up
to its first white space (`Reading.steps_escape`), but it never ends a tag (`Reading.run_data`).
-/

namespace Trellis.Markup

/-! ### Entities -/

/-- The characters that the entities of a text stand for. -/
def decode : List Char → List Char
  | '&' :: 'a' :: 'm' :: 'p' :: ';' :: s => '&' :: decode s
  | '&' :: 'l' :: 't' :: ';' :: s => '<' :: decode s
  | '&' :: 'g' :: 't' :: ';' :: s => '>' :: decode s
  | '&' :: 'q' :: 'u' :: 'o' :: 't' :: ';' :: s => '"' :: decode s
  | '&' :: '#' :: '3' :: '4' :: ';' :: s => '"' :: decode s
  | '&' :: '#' :: '3' :: '9' :: ';' :: s => '\'' :: decode s
  | c :: s => c :: decode s
  | [] => []

/-- A character that begins no reference stands for itself. -/
theorem decode_cons {c : Char} (h : c ≠ '&') (s : List Char) : decode (c :: s) = c :: decode s := by
  rw [decode] <;> exact fun _ hc => absurd hc h

/-- The characters that have entities. -/
def special : List Char := ['&', '<', '>', '\'', '"']

theorem escapeChar_of_not_mem {c : Char} (h : c ∉ special) : Text.escapeChar c = [c] := by
  unfold Text.escapeChar
  split <;> first | rfl | exact absurd (by decide) h

/-- An escaped character is decoded as it was. -/
theorem decode_escapeChar (c : Char) (s : List Char) :
    decode (Text.escapeChar c ++ s) = c :: decode s := by
  by_cases hc : c ∈ special
  · simp only [special, List.mem_cons, List.not_mem_nil, or_false] at hc
    obtain rfl | rfl | rfl | rfl | rfl := hc <;> rfl
  · have hamp : c ≠ '&' := fun h => hc (h ▸ List.mem_cons_self)
    rw [escapeChar_of_not_mem hc, List.singleton_append, decode_cons hamp]

/-- An escaped text is decoded to itself. -/
theorem decode_escape (s t : List Char) :
    decode (s.flatMap Text.escapeChar ++ t) = s ++ decode t := by
  induction s with
  | nil => rfl
  | cons c s ih =>
    rw [List.flatMap_cons, List.append_assoc, decode_escapeChar, ih, List.cons_append]

/-! ### The reader -/

/-- White space between attributes. -/
def isBreak (c : Char) : Bool :=
  c = ' ' || c = '\t' || c = '\n' || c = '\r' || c.toNat = 0x0c

/-- A quote around a value. -/
def isValueQuote (c : Char) : Bool :=
  c = '"' || c = '\''

/-- Where a reader is in an opening tag. -/
inductive Reading where
  /-- In front of an attribute. -/
  | between
  /-- In the name of an attribute. -/
  | name (read : List Char)
  /-- Behind white space that follows the name of an attribute. -/
  | behind (name : List Char)
  /-- Behind the sign that follows the name of an attribute. -/
  | value (name : List Char)
  | quoted (quote : Char) (name read : List Char)
  | unquoted (name read : List Char)

/-- An attribute that has been read, with its value. -/
def found (name value : List Char) : String × String :=
  (String.ofList name, String.ofList (decode value))

namespace Reading

/-- The attributes up to the end of the tag, and what follows it. -/
def run : Reading → List Char → Option (List (String × String) × List Char)
  | _, [] => none
  | between, c :: s =>
    if c = '>' then some ([], s) else if isBreak c then run between s else run (name [c]) s
  | name x, c :: s =>
    if c = '>' then some ([found x []], s)
    else if c = '=' then run (value x) s
    else if isBreak c then run (behind x) s
    else run (name (x ++ [c])) s
  | behind x, c :: s =>
    if c = '>' then some ([found x []], s)
    else if c = '=' then run (value x) s
    else if isBreak c then run (behind x) s
    else (run (name [c]) s).map fun p => (found x [] :: p.1, p.2)
  | value x, c :: s =>
    if c = '>' then some ([found x []], s)
    else if isBreak c then run (value x) s
    else if isValueQuote c then run (quoted c x []) s
    else run (unquoted x [c]) s
  | quoted q x v, c :: s =>
    if c = q then (run between s).map fun p => (found x v :: p.1, p.2)
    else run (quoted q x (v ++ [c])) s
  | unquoted x v, c :: s =>
    if c = '>' then some ([found x v], s)
    else if isBreak c then (run between s).map fun p => (found x v :: p.1, p.2)
    else run (unquoted x (v ++ [c])) s
termination_by structural _ s => s

end Reading

/-- The name of an opening tag at the front, its attributes, and what follows it. -/
def openingTag? : List Char → Option (String × List (String × String) × List Char)
  | '<' :: s =>
    let inName (c : Char) : Bool := !isBreak c && c != '>'
    (Reading.between.run (s.dropWhile inName)).map fun p => (String.ofList (s.takeWhile inName), p)
  | _ => none

example : openingTag? "<p a=1 b  c=\"x > y\" d = &lt;&amp;>rest".toList =
    some ("p", [("a", "1"), ("b", ""), ("c", "x > y"), ("d", "<&")], "rest".toList) := by decide

/-! ### What is read -/

namespace Reading

variable {r : Reading} {x v s t : List Char} {c q : Char}

/-- The reader is behind `s`, having found `as`, in the state `r'`, whatever follows. -/
def Steps (r : Reading) (s : List Char) (as : List (String × String)) (r' : Reading) : Prop :=
  ∀ t, r.run (s ++ t) = (r'.run t).map fun p => (as ++ p.1, p.2)

theorem Steps.nil (r : Reading) : Steps r [] [] r := by
  intro t
  simp

/-- Steps in a row read the attributes of both, one behind the other. -/
theorem Steps.append {r' r'' : Reading} {as bs : List (String × String)} (h : Steps r s as r')
    (h' : Steps r' t bs r'') : Steps r (s ++ t) (as ++ bs) r'' := by
  intro u
  rw [List.append_assoc, h, h', Option.map_map]
  simp [Function.comp_def]

/-- A step over one character that finds nothing. -/
theorem Steps.cons {r' r'' : Reading} {as : List (String × String)}
    (hstep : ∀ t, r.run (c :: t) = r'.run t) (h : Steps r' s as r'') : Steps r (c :: s) as r'' := by
  intro t
  rw [List.cons_append, hstep, h]

/-- A character of a name. -/
structure IsNameChar (c : Char) : Prop where
  inside : isBreak c = false
  sign : c ≠ '='
  bracket : c ≠ '>'

/-- The characters of a name are read as one. -/
theorem steps_name (hs : ∀ c ∈ s, IsNameChar c) (x : List Char) :
    Steps (name x) s [] (name (x ++ s)) := by
  induction s generalizing x with
  | nil =>
    rw [List.append_nil]
    exact .nil _
  | cons c s ih =>
    obtain ⟨hc, hs⟩ := List.forall_mem_cons.mp hs
    have hstep (t : List Char) : (name x).run (c :: t) = (name (x ++ [c])).run t := by
      rw [run, if_neg hc.bracket, if_neg hc.sign, hc.inside]
      rfl
    have hrest := ih hs (x ++ [c])
    rw [List.append_assoc] at hrest
    exact .cons hstep hrest

/-- What stands up to the quote is a value. -/
theorem steps_quoted (hs : q ∉ s) (x v : List Char) :
    Steps (quoted q x v) (s ++ [q]) [found x (v ++ s)] between := by
  induction s generalizing v with
  | nil =>
    intro t
    rw [List.append_nil, List.nil_append, List.singleton_append, run, if_pos rfl]
    rfl
  | cons c s ih =>
    obtain ⟨hc, hs⟩ : q ≠ c ∧ q ∉ s := by simpa using hs
    have hstep (t : List Char) : (quoted q x v).run (c :: t) = (quoted q x (v ++ [c])).run t := by
      rw [run, if_neg (Ne.symm hc)]
    have hrest := ih hs (v ++ [c])
    rw [List.append_assoc] at hrest
    exact .cons hstep hrest

/-- A character of a value without quotes around it. -/
structure IsValueChar (c : Char) : Prop where
  inside : isBreak c = false
  bracket : c ≠ '>'

/-- A value without quotes goes on as long as its characters do. -/
theorem steps_unquoted (hs : ∀ c ∈ s, IsValueChar c) (x v : List Char) :
    Steps (unquoted x v) s [] (unquoted x (v ++ s)) := by
  induction s generalizing v with
  | nil =>
    rw [List.append_nil]
    exact .nil _
  | cons c s ih =>
    obtain ⟨hc, hs⟩ := List.forall_mem_cons.mp hs
    have hstep (t : List Char) : (unquoted x v).run (c :: t) = (unquoted x (v ++ [c])).run t := by
      rw [run, if_neg hc.bracket, hc.inside]
      rfl
    have hrest := ih hs (v ++ [c])
    rw [List.append_assoc] at hrest
    exact .cons hstep hrest

/-! ### Attributes that stand for themselves -/

/-- A character of a name that means nothing in a value either. -/
structure IsKeyChar (c : Char) : Prop extends IsNameChar c where
  quote : isValueQuote c = false
  entity : c ≠ '&'

/-- The name of an attribute, which can be its value too. -/
structure IsKey (k : List Char) : Prop where
  nonempty : k ≠ []
  chars : ∀ c ∈ k, IsKeyChar c

/-- An attribute whose value is its name, in quotes. -/
def selfChars (k : List Char) : List Char :=
  k ++ '=' :: '"' :: (k ++ ['"'])

/-- Such an attribute behind a blank. -/
def flagChars (k : List Char) : List Char :=
  ' ' :: selfChars k

/-- An attribute that has its name as its value. -/
def twice (k : List Char) : String × String :=
  (String.ofList k, String.ofList k)

theorem found_self {k : List Char} (hk : IsKey k) : found k k = twice k := by
  have hdecode : decode k = k := by
    have hchars := hk.chars
    clear hk
    induction k with
    | nil => rfl
    | cons c k ih =>
      obtain ⟨hc, hk⟩ := List.forall_mem_cons.mp hchars
      rw [decode_cons hc.entity, ih hk]
  rw [found, hdecode, twice]

/-- Where a name begins with its first character, it is read up to the sign. -/
theorem steps_key {k : List Char} {as : List (String × String)} (hk : IsKey k)
    (hfirst : ∀ c, IsKeyChar c → Steps r [c] as (name [c])) : Steps r (k ++ ['=']) as (value k) := by
  obtain ⟨hne, hchars⟩ := hk
  cases k with
  | nil => exact absurd rfl hne
  | cons c k =>
    obtain ⟨hc, hk⟩ := List.forall_mem_cons.mp hchars
    have hsign : Steps (name ([c] ++ k)) ['='] [] (value (c :: k)) := fun t => by simp [run]
    have hname := (steps_name (fun d hd => (hk d hd).toIsNameChar) [c]).append hsign
    simpa using (hfirst c hc).append hname

theorem steps_self {k : List Char} {as : List (String × String)} (hk : IsKey k)
    (hfirst : ∀ c, IsKeyChar c → Steps r [c] as (name [c])) :
    Steps r (selfChars k) (as ++ [twice k]) between := by
  have hquote : '"' ∉ k := fun h => absurd (hk.chars _ h).quote (by decide)
  have hvalue : Steps (value k) ('"' :: (k ++ ['"'])) [found k ([] ++ k)] between :=
    .cons (fun _ => rfl) (steps_quoted hquote k [])
  rw [List.nil_append, found_self hk] at hvalue
  simpa [selfChars] using (steps_key hk hfirst).append hvalue

theorem steps_between (hc : IsKeyChar c) : Steps between [c] [] (name [c]) :=
  .cons (fun t => by rw [run, if_neg hc.bracket, hc.inside, if_neg nofun]) (.nil _)

theorem steps_behind (hc : IsKeyChar c) (x : List Char) :
    Steps (behind x) [c] [found x []] (name [c]) := by
  intro t
  rw [List.singleton_append, run, if_neg hc.bracket, if_neg hc.sign, hc.inside, if_neg nofun]
  rfl

/-- A blank between attributes reads nothing. -/
theorem steps_blank : Steps between [' '] [] between :=
  .cons (fun _ => rfl) (.nil _)

/-- An attribute that is its own value is read as such. -/
theorem steps_flag {k : List Char} (hk : IsKey k) :
    Steps between (flagChars k) [twice k] between :=
  steps_blank.append (steps_self hk fun _ hc => steps_between hc)

/-- So are several of them. -/
theorem steps_flags {ks : List (List Char)} (hks : ∀ k ∈ ks, IsKey k) :
    Steps between (ks.flatMap flagChars) (ks.map twice) between := by
  induction ks with
  | nil => exact .nil _
  | cons k ks ih =>
    obtain ⟨hk, hks⟩ := List.forall_mem_cons.mp hks
    exact (steps_flag hk).append (ih hks)

/-! ### Outside quotes -/

/-- The reader is not within quotes. -/
def Open : Reading → Prop
  | quoted .. => False
  | _ => True

/-- A tag ends at the first bracket outside of quotes. -/
theorem exists_end (hr : r.Open) : ∃ as, ∀ t, r.run ('>' :: t) = some (as, t) := by
  cases r with
  | quoted q x v => exact hr.elim
  | between => exact ⟨_, fun t => rfl⟩
  | name x => exact ⟨_, fun t => rfl⟩
  | behind x => exact ⟨_, fun t => rfl⟩
  | value x => exact ⟨_, fun t => rfl⟩
  | unquoted x v => exact ⟨_, fun t => rfl⟩

/-- Outside quotes, a character that is neither a quote nor the end of the tag leads to no quotes. -/
theorem exists_step (hr : r.Open) (hbracket : c ≠ '>') (hquote : isValueQuote c = false) :
    ∃ as r', Open r' ∧ Steps r [c] as r' := by
  -- unless the character ends an attribute, none is found with it
  have silent (r' : Reading) (hr' : r'.Open) (h : ∀ t, r.run (c :: t) = r'.run t) :
      ∃ as r', Open r' ∧ Steps r [c] as r' := ⟨[], r', hr', .cons h (.nil r')⟩
  cases r with
  | quoted q x v => exact hr.elim
  | between =>
    cases hbreak : isBreak c with
    | true => exact silent between trivial fun t => by rw [run, if_neg hbracket, hbreak, if_pos rfl]
    | false => exact silent (name [c]) trivial fun t => by rw [run, if_neg hbracket, hbreak, if_neg nofun]
  | name x =>
    by_cases hsign : c = '='
    · exact silent (value x) trivial fun t => by rw [run, if_neg hbracket, if_pos hsign]
    cases hbreak : isBreak c with
    | true =>
      exact silent (behind x) trivial fun t => by
        rw [run, if_neg hbracket, if_neg hsign, hbreak, if_pos rfl]
    | false =>
      exact silent (name (x ++ [c])) trivial fun t => by
        rw [run, if_neg hbracket, if_neg hsign, hbreak, if_neg nofun]
  | behind x =>
    by_cases hsign : c = '='
    · exact silent (value x) trivial fun t => by rw [run, if_neg hbracket, if_pos hsign]
    cases hbreak : isBreak c with
    | true =>
      exact silent (behind x) trivial fun t => by
        rw [run, if_neg hbracket, if_neg hsign, hbreak, if_pos rfl]
    | false =>
      refine ⟨[found x []], name [c], trivial, fun t => ?_⟩
      rw [List.singleton_append, run, if_neg hbracket, if_neg hsign, hbreak, if_neg nofun]
      rfl
  | value x =>
    cases hbreak : isBreak c with
    | true => exact silent (value x) trivial fun t => by rw [run, if_neg hbracket, hbreak, if_pos rfl]
    | false =>
      exact silent (unquoted x [c]) trivial fun t => by
        rw [run, if_neg hbracket, hbreak, if_neg nofun, hquote, if_neg nofun]
  | unquoted x v =>
    cases hbreak : isBreak c with
    | true =>
      refine ⟨[found x v], between, trivial, fun t => ?_⟩
      rw [List.singleton_append, run, if_neg hbracket, hbreak, if_pos rfl]
      rfl
    | false =>
      exact silent (unquoted x (v ++ [c])) trivial fun t => by
        rw [run, if_neg hbracket, hbreak, if_neg nofun]

/-- Characters that are neither brackets nor quotes leave the reading open. -/
theorem exists_steps (hr : r.Open) (hs : ∀ c ∈ s, c ≠ '>' ∧ isValueQuote c = false) :
    ∃ as r', Open r' ∧ Steps r s as r' := by
  induction s generalizing r with
  | nil => exact ⟨[], r, hr, .nil r⟩
  | cons c s ih =>
    obtain ⟨⟨hbracket, hquote⟩, hs⟩ := List.forall_mem_cons.mp hs
    obtain ⟨as, r', hr', hstep⟩ := exists_step hr hbracket hquote
    obtain ⟨bs, r'', hr'', hrest⟩ := ih hr' hs
    exact ⟨as ++ bs, r'', hr'', hstep.append hrest⟩

/-- An attribute that stands for itself is read as one, or it belongs to a value without quotes. -/
theorem exists_steps_flag (hr : r.Open) {k : List Char} (hk : IsKey k) :
    ∃ as r', Open r' ∧ Steps r (flagChars k) as r' := by
  have hbetween {as : List (String × String)} (h : Steps r [' '] as between) :
      ∃ as r', Open r' ∧ Steps r (flagChars k) as r' :=
    ⟨_, between, trivial, h.append (steps_self hk fun _ hc => steps_between hc)⟩
  have hbehind {x : List Char} (h : Steps r [' '] [] (behind x)) :
      ∃ as r', Open r' ∧ Steps r (flagChars k) as r' :=
    ⟨_, between, trivial, h.append (steps_self hk fun _ hc => steps_behind hc x)⟩
  cases r with
  | quoted q x v => exact hr.elim
  | between => exact hbetween steps_blank
  | name x => exact hbehind (.cons (fun _ => rfl) (.nil _))
  | behind x => exact hbehind (.cons (fun _ => rfl) (.nil _))
  | unquoted x v =>
    have hend : Steps (unquoted x v) [' '] [found x v] between := fun _ => rfl
    exact hbetween hend
  -- behind a sign the key begins a value, which its own sign and quotes belong to
  | value x =>
    obtain ⟨c, k', rfl⟩ := List.exists_cons_of_ne_nil hk.nonempty
    obtain ⟨hc, hk'⟩ := List.forall_mem_cons.mp hk.chars
    have hfirst (t : List Char) : (value x).run (c :: t) = (unquoted x [c]).run t := by
      rw [run, if_neg hc.bracket, hc.inside, if_neg nofun, hc.quote, if_neg nofun]
    have hkey : ∀ d ∈ c :: k', IsValueChar d :=
      fun d hd => ⟨(hk.chars d hd).inside, (hk.chars d hd).bracket⟩
    have hrest : ∀ d ∈ k' ++ '=' :: '"' :: (c :: k' ++ ['"']), IsValueChar d := by
      intro d hd
      simp only [List.mem_append, List.mem_cons, List.not_mem_nil, or_false] at hd
      obtain hd | rfl | rfl | (rfl | hd) | rfl := hd
      · exact hkey d (List.mem_cons_of_mem _ hd)
      · exact ⟨rfl, by decide⟩
      · exact ⟨rfl, by decide⟩
      · exact hkey _ List.mem_cons_self
      · exact hkey d (List.mem_cons_of_mem _ hd)
      · exact ⟨rfl, by decide⟩
    exact ⟨[], unquoted x _, trivial,
      .cons (fun _ => rfl) (.cons hfirst (steps_unquoted hrest x [c]))⟩

/-- So do attributes that are their own values. -/
theorem exists_steps_flags (hr : r.Open) {ks : List (List Char)} (hks : ∀ k ∈ ks, IsKey k) :
    ∃ as r', Open r' ∧ Steps r (ks.flatMap flagChars) as r' := by
  induction ks generalizing r with
  | nil => exact ⟨[], r, hr, .nil r⟩
  | cons k ks ih =>
    obtain ⟨hk, hks⟩ := List.forall_mem_cons.mp hks
    obtain ⟨as, r', hr', hflag⟩ := exists_steps_flag hr hk
    obtain ⟨bs, r'', hr'', hrest⟩ := ih hr' hks
    exact ⟨as ++ bs, r'', hr'', hflag.append hrest⟩

/-! ### An escaped value without quotes -/

/-- An escaped text has no quotes and no end of a tag, and no white space but its own. -/
theorem mem_escape (h : c ∈ s.flatMap Text.escapeChar) :
    c ≠ '>' ∧ isValueQuote c = false ∧ (isBreak c = true → c ∈ s) := by
  have entities : special.all (fun d => (Text.escapeChar d).all fun c =>
      c != '>' && !isValueQuote c && !isBreak c) = true := by decide
  obtain ⟨d, hd, hc⟩ := List.mem_flatMap.mp h
  by_cases hspecial : d ∈ special
  · have hcode := List.all_eq_true.mp (List.all_eq_true.mp entities d hspecial) c hc
    simp only [Bool.and_eq_true, bne_iff_ne, Bool.not_eq_true'] at hcode
    obtain ⟨⟨hbracket, hquote⟩, hbreak⟩ := hcode
    exact ⟨hbracket, hquote, fun h => absurd (h.symm.trans hbreak) nofun⟩
  · obtain rfl : c = d := by simpa [escapeChar_of_not_mem hspecial] using hc
    simp only [special, List.mem_cons, List.not_mem_nil, or_false, not_or] at hspecial
    exact ⟨hspecial.2.2.1, by simp [isValueQuote, hspecial], fun _ => hd⟩

theorem escape_break (h : isBreak c = true) : Text.escapeChar c = [c] := by
  refine escapeChar_of_not_mem fun hc => ?_
  have breaks : special.all (fun d => !isBreak d) = true := by decide
  have hbreak := List.all_eq_true.mp breaks c hc
  rw [h] at hbreak
  cases hbreak

/-- A text without white space that is escaped is a value without quotes. -/
theorem steps_escape (hne : s ≠ []) (hs : ∀ c ∈ s, isBreak c = false) (x : List Char) :
    Steps (value x) (s.flatMap Text.escapeChar) []
      (unquoted x (s.flatMap Text.escapeChar)) := by
  have hchars : ∀ c ∈ s.flatMap Text.escapeChar, IsValueChar c ∧ isValueQuote c = false := by
    intro c hc
    obtain ⟨hbracket, hquote, hbreak⟩ := mem_escape hc
    refine ⟨⟨?_, hbracket⟩, hquote⟩
    rw [Bool.eq_false_iff]
    exact fun h => absurd (hs c (hbreak h)) (by rw [h]; nofun)
  have hescaped : s.flatMap Text.escapeChar ≠ [] := by
    intro h
    have hs := decode_escape s []
    rw [h] at hs
    exact hne (by simpa [decode] using hs.symm)
  obtain ⟨c, u, hu⟩ := List.exists_cons_of_ne_nil hescaped
  rw [hu] at hchars ⊢
  obtain ⟨⟨hc, hquote⟩, hrest⟩ := List.forall_mem_cons.mp hchars
  have hfirst (t : List Char) : (value x).run (c :: t) = (unquoted x [c]).run t := by
    rw [run, if_neg hc.bracket, hc.inside, if_neg nofun, hquote, if_neg nofun]
  exact .cons hfirst (steps_unquoted (fun d hd => (hrest d hd).1) x [c])

/-- The attributes that stand for themselves behind a value without quotes, up to the end. -/
theorem run_unquoted_flags {ks : List (List Char)} (hks : ∀ k ∈ ks, IsKey k) (x v t : List Char) :
    (unquoted x v).run (ks.flatMap flagChars ++ '>' :: t) =
      some (found x v :: ks.map twice, t) := by
  cases ks with
  | nil => rfl
  | cons k ks =>
    obtain ⟨hk, hks⟩ := List.forall_mem_cons.mp hks
    have hend : Steps (unquoted x v) [' '] [found x v] between := fun _ => rfl
    have hself := hend.append (steps_self hk fun _ hc => steps_between hc)
    have hall := hself.append (steps_flags hks) ('>' :: t)
    simpa [flagChars, run] using hall

/-- **A data attribute in a tag.**  It is read up to the first white space of its value, and the tag
ends where it is written to end, whatever the value is. -/
theorem run_data {k : List Char} {ks : List (List Char)} {j : List Char} (hk : IsKey k)
    (hks : ∀ k ∈ ks, IsKey k) (hj : ∀ c ∈ j.head?, isBreak c = false) (hne : j ≠ []) :
    ∃ more, (∀ t, between.run
        (' ' :: (k ++ '=' :: (j.flatMap Text.escapeChar ++ (ks.flatMap flagChars ++ '>' :: t)))) =
        some ((String.ofList k, String.ofList (j.takeWhile fun c => !isBreak c)) :: more, t)) ∧
      ((∀ c ∈ j, isBreak c = false) → more = ks.map twice) := by
  have hkey : Steps between (' ' :: (k ++ ['='])) [] (value k) :=
    steps_blank.append (steps_key hk fun _ hc => steps_between hc)
  have hfront : j.takeWhile (fun c => !isBreak c) ≠ [] := by
    obtain ⟨c, u, rfl⟩ := List.exists_cons_of_ne_nil hne
    simp [hj c rfl]
  have hclean : ∀ c ∈ j.takeWhile (fun c => !isBreak c), isBreak c = false := by
    intro c hc
    simpa using List.mem_takeWhile_imp hc
  have hread := hkey.append (steps_escape hfront hclean k)
  have hfound : found k ((j.takeWhile fun c => !isBreak c).flatMap Text.escapeChar) =
      (String.ofList k, String.ofList (j.takeWhile fun c => !isBreak c)) := by
    have hdecode := decode_escape (j.takeWhile fun c => !isBreak c) []
    rw [List.append_nil] at hdecode
    rw [found, hdecode]
    simp [decode]
  have hsplit : j = _ := (List.takeWhile_append_dropWhile (p := fun c => !isBreak c)).symm
  cases hrest : j.dropWhile (fun c => !isBreak c) with
  | nil =>
    rw [hrest, List.append_nil] at hsplit
    rw [← hsplit] at hread hfound ⊢
    refine ⟨ks.map twice, fun t => ?_, fun _ => rfl⟩
    have hrun := hread (ks.flatMap flagChars ++ '>' :: t)
    rw [run_unquoted_flags hks, hfound] at hrun
    simpa using hrun
  | cons g u =>
    have hg : isBreak g = true := by
      have hhead := List.head?_dropWhile_not (fun c => !isBreak c) j
      rw [hrest] at hhead
      simpa using hhead
    have hbreak : Steps (unquoted k ((j.takeWhile fun c => !isBreak c).flatMap Text.escapeChar)) [g]
        [(String.ofList k, String.ofList (j.takeWhile fun c => !isBreak c))] between := by
      have hbracket : g ≠ '>' := by
        rintro rfl
        exact absurd hg (by decide)
      intro t
      rw [List.singleton_append, run, if_neg hbracket, hg, if_pos rfl, hfound]
      rfl
    -- what the white space has cut off is read on, outside quotes
    obtain ⟨as, r, hr, hbehind⟩ := exists_steps (s := u.flatMap Text.escapeChar)
      (show between.Open from trivial) fun c hc => ⟨(mem_escape hc).1, (mem_escape hc).2.1⟩
    obtain ⟨bs, r', hr', hflags⟩ := exists_steps_flags hr hks
    obtain ⟨cs, hend⟩ := exists_end hr'
    refine ⟨as ++ bs ++ cs, fun t => ?_, fun hall => ?_⟩
    · have hrun := ((hread.append hbreak).append (hbehind.append hflags)) ('>' :: t)
      rw [hend] at hrun
      have hescape : j.flatMap Text.escapeChar =
          (j.takeWhile fun c => !isBreak c).flatMap Text.escapeChar ++
            g :: u.flatMap Text.escapeChar := by
        rw [hrest] at hsplit
        conv_lhs => rw [hsplit]
        rw [List.flatMap_append, List.flatMap_cons, escape_break hg, List.singleton_append]
      rw [hescape]
      simpa using hrun
    · have hmem : g ∈ j := by
        rw [hsplit, hrest]
        exact List.mem_append_right _ List.mem_cons_self
      exact absurd (hg.symm.trans (hall g hmem)) nofun

end Reading

open Reading in
/-- **An opening tag with a data attribute** among attributes that stand for themselves.  It ends
where it is written to end.  The attributes are read as they are written, if the value of the data
attribute has no white space. -/
theorem openingTag?_data {name k j : List Char} {front back : List (List Char)}
    (hname : ∀ c ∈ name, isBreak c = false ∧ c ≠ '>') (hk : IsKey k)
    (hfront : ∀ k ∈ front, IsKey k) (hback : ∀ k ∈ back, IsKey k)
    (hj : ∀ c ∈ j.head?, isBreak c = false) (hne : j ≠ []) :
    ∃ more, (∀ t, openingTag? ('<' :: (name ++ (front.flatMap flagChars ++ ' ' :: (k ++ '=' ::
        (j.flatMap Text.escapeChar ++ (back.flatMap flagChars ++ '>' :: t)))))) =
        some (String.ofList name, front.map twice ++
          (String.ofList k, String.ofList (j.takeWhile fun c => !isBreak c)) :: more, t)) ∧
      ((∀ c ∈ j, isBreak c = false) → more = back.map twice) := by
  obtain ⟨more, hread, hall⟩ := run_data hk hback hj hne
  refine ⟨more, fun t => ?_, hall⟩
  have hpos : ∀ c ∈ name, (!isBreak c && c != '>') = true := by
    intro c hc
    obtain ⟨hbreak, hbracket⟩ := hname c hc
    simp [hbreak, hbracket]
  -- a blank ends the name of the tag, whichever attribute is the first
  obtain ⟨s, hs⟩ : ∃ s, front.flatMap flagChars ++ ' ' :: (k ++ '=' ::
      (j.flatMap Text.escapeChar ++ (back.flatMap flagChars ++ '>' :: t))) = ' ' :: s := by
    cases front with
    | nil => exact ⟨_, rfl⟩
    | cons f front => exact ⟨_, rfl⟩
  have hrun := steps_flags hfront (' ' :: (k ++ '=' ::
    (j.flatMap Text.escapeChar ++ (back.flatMap flagChars ++ '>' :: t))))
  rw [hread t, hs] at hrun
  rw [hs, openingTag?]
  simp only [List.takeWhile_append_of_pos hpos, List.dropWhile_append_of_pos hpos]
  have hblank : (!isBreak ' ' && ' ' != '>') = false := by decide
  simp only [List.takeWhile_cons, List.dropWhile_cons, hblank]
  simpa using hrun

end Trellis.Markup
