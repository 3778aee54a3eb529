import Trellis.Proofs.Interpretation.Coupling
import Trellis.Proofs.Json.Breaks
import Trellis.Proofs.Markup.Joining
import Trellis.Proofs.Text.Cutting
import Trellis.Samples

/-!
# Proofs — Markup — Data attributes

What becomes of the value of a data attribute (`data_attribute`).  It is serialized and escaped, but
no quotes are put around it: a reader finds it in the tag if and only if none of its texts has a
blank.  Otherwise the reader finds what stands in front of the first one, and takes the rest for
attributes.  The tag ends where it is written to end in any case.
-/

namespace Trellis

open Rendering Markup

/-- A text of characters of words, at least one. -/
structure Markup.IsWord (s : String) : Prop where
  nonempty : s ≠ ""
  chars : ∀ c ∈ s.toList, Text.isAlnum c = true

namespace Markup

variable {s : String}

/-- No character of words means anything in a tag. -/
theorem isKeyChar_of_isAlnum {c : Char} (h : Text.isAlnum c = true) :
    Reading.IsKeyChar c ∧ Tag.isMark c = false := by
  have marks : [' ', '\t', '\n', '\r', Char.ofNat 12, '=', '>', '"', '\'', '&', '.', '#'].all
      (fun d => !Text.isAlnum d) = true := by decide
  have hne (d : Char) (hd : (!Text.isAlnum d) = true) : c ≠ d := by
    rintro rfl
    rw [h] at hd
    cases hd
  simp only [List.all_cons, List.all_nil, Bool.and_true, Bool.and_eq_true] at marks
  obtain ⟨h₁, h₂, h₃, h₄, h₅, hsign, hbracket, h₆, h₇, hentity, h₈, h₉⟩ := marks
  have hfeed : c.toNat ≠ 0x0c := by
    intro hc
    exact hne _ h₅ (by rw [← Char.ofNat_toNat c, hc])
  refine ⟨⟨⟨?_, hne _ hsign, hne _ hbracket⟩, ?_, hne _ hentity⟩, ?_⟩
  · simp [isBreak, hne _ h₁, hne _ h₂, hne _ h₃, hne _ h₄, hfeed]
  · simp [isValueQuote, hne _ h₆, hne _ h₇]
  · simp [Tag.isMark, hne _ h₈, hne _ h₉]

/-- A word can be the name of an attribute. -/
theorem IsWord.isKey (h : IsWord s) : Reading.IsKey s.toList where
  nonempty := by simpa using h.nonempty
  chars c hc := (isKeyChar_of_isAlnum (h.chars c hc)).1

/-- The key of a data attribute. -/
def dataKey (k : String) : String := "data-" ++ k

/-- So can a word with `data-` in front. -/
theorem isKey_dataKey (h : IsWord s) : Reading.IsKey (dataKey s).toList where
  nonempty := by simp [dataKey]
  chars c hc := by
    rw [dataKey, String.toList_append, List.mem_append] at hc
    obtain hc | hc := hc
    · have hfront : c ∈ "data".toList ∨ c = '-' := by simpa [or_assoc] using hc
      obtain hc | rfl := hfront
      · have word : "data".toList.all Text.isAlnum = true := by decide
        exact (isKeyChar_of_isAlnum (List.all_eq_true.mp word c hc)).1
      · exact ⟨⟨by decide, by decide, by decide⟩, by decide, by decide⟩
    · exact h.isKey.chars c hc

end Markup

theorem Tag.cut_eq {s : List Char} (h : ∀ c ∈ s, Tag.isMark c = false) : Tag.cut s = (s, []) := by
  induction s with
  | nil => rfl
  | cons c s ih =>
    obtain ⟨hc, hs⟩ := List.forall_mem_cons.mp h
    simp [Tag.cut, ih hs, hc]

/-- A word is the symbol of a tag of that name. -/
theorem Tag.ofSymbol_word {s : String} (h : IsWord s) : Tag.ofSymbol s = ⟨s, none, []⟩ := by
  have hcut := Tag.cut_eq fun c hc => (isKeyChar_of_isAlnum (h.chars c hc)).2
  have hne : s.toList.isEmpty = false := by simpa using h.nonempty
  simp [Tag.ofSymbol, Tag.parts, Tag.behind, hcut, hne]

/-! ### The attributes of a tag -/

namespace Render

variable {eng : Engine} {body : Body} {p : Place} {n : Node} {w w₁ : World}

/-- An attribute that stands for itself. -/
def selfEntry (f : String × Bool) : Value × Value := (.text f.1, .bool f.2)

/-- Attributes that stand for themselves are written in front of the others. -/
theorem attributesOf_self (fs : List (String × Bool)) (as : List (Value × Value)) (g : Group) :
    attributesOf eng p n (fs.map selfEntry ++ as) g = do
      let (bs, g) ← attributesOf eng p n as g
      return (fs.map (fun f => flag f.1) ++ bs, g) := by
  induction fs with
  | nil => simp
  | cons f fs ih =>
    simp only [List.map_cons, List.cons_append, attributesOf, selfEntry, attributeOf, pure_bind,
      Option.toList_some, List.nil_append]
    simp only [ih, bind_assoc, pure_bind]
    rfl

/-- Escaping a text changes nothing else. -/
theorem exec_escape (hescape : eng.config.escape = Escape.markup) (s : String) (w : World) :
    exec (eng.escape (.text s)) w = (.ok (.text (Text.escape s)), w) := by
  rw [Engine.escape, hescape, exec_ofCause]
  rfl

/-- The text of a data attribute is the serialized value, escaped, without quotes. -/
theorem exec_attributeValue_data {k j : String} {v : Value}
    (hescape : eng.config.escape = Escape.markup)
    (hjson : Json.write (w.heap.serial v) = .ok j) :
    exec (attributeValue eng (.text (dataKey k)) v) w = (.ok (Text.escape j), w) := by
  have hdata : isData (dataKey k) = true := by
    simp [isData, dataKey]
  have hwritten : exec (onHeap do Action.ofExcept (Json.write (← Action.serial v))) w =
      (.ok j, w) := by
    have hserial : (Action.serial v).run.run w.heap = (.ok (w.heap.serial v), w.heap) := rfl
    rw [exec_onHeap, Action.run_bind, hserial]
    simp only [hjson]
    rfl
  rw [attributeValue, exec_bind_ok hwritten]
  simp only [hdata, if_true]
  rw [exec_bind_ok (exec_escape hescape j w), exec_pure, Value.plain]

/-- An attribute of data is written as its name and the escaped text of its value. -/
theorem exec_attributeOf_data {k e j : String} {v : Value}
    (hescape : eng.config.escape = Escape.markup) (he : e ≠ "")
    (hvalue : exec (evaluate eng p n (.text e)) w = (.ok v, w₁))
    (hjson : Json.write (w₁.heap.serial v) = .ok j) (g : Group) :
    exec (attributeOf eng p n (.text (dataKey k)) (.text e) g) w =
      (.ok (some (written (dataKey k) (Text.escape j)), g.dynamic), w₁) := by
  have htruth : (!Value.truth (.text e)) = false := by
    simpa [Value.truth, String.isEmpty_iff] using he
  -- only the attribute `class` is left out when its value is not true
  have hclass : Value.sameItem (.text (dataKey k)) (.text "class") = false := by
    rw [Bool.eq_false_iff]
    intro h
    have hkey : dataKey k = "class" := eq_of_beq h
    have hlist := congrArg String.toList hkey
    simp [dataKey] at hlist
  obtain ⟨b, hrun⟩ := Action.exists_run_truth v w₁.heap
  have hb : exec (onHeap (Action.truth v)) w₁ = (.ok b, w₁) := by
    rw [exec_onHeap, hrun]
  have hstep : attributeOf eng p n (.text (dataKey k)) (.text e) g = do
      let v ← evaluate eng p n (.text e)
      let isTrue ← onHeap (Action.truth v)
      if Value.sameItem (.text (dataKey k)) (.text "class") && !isTrue then
        return (none, g.dynamic)
      else
        return (some (written (dataKey k) (← attributeValue eng (.text (dataKey k)) v)),
          g.dynamic) := by
    simp only [attributeOf, htruth, Bool.false_eq_true, if_false]
    rfl
  rw [hstep, exec_bind_ok hvalue, exec_bind_ok hb, hclass, Bool.false_and,
    if_neg Bool.false_ne_true, exec_bind_ok (exec_attributeValue_data hescape hjson)]
  rfl

/-- All attributes of a tag with a data attribute among others that stand for themselves. -/
theorem exec_attributesOf_data {k e j : String} {v : Value} {front back : List (String × Bool)}
    (hescape : eng.config.escape = Escape.markup) (he : e ≠ "")
    (hvalue : exec (evaluate eng p n (.text e)) w = (.ok v, w₁))
    (hjson : Json.write (w₁.heap.serial v) = .ok j) (g : Group) :
    exec (attributesOf eng p n
        (front.map selfEntry ++ (.text (dataKey k), .text e) :: back.map selfEntry) g) w =
      (.ok (front.map (fun f => flag f.1) ++ written (dataKey k) (Text.escape j) ::
        back.map (fun f => flag f.1), g.dynamic), w₁) := by
  have hback : attributesOf eng p n (back.map selfEntry) g.dynamic =
      pure (back.map (fun f => flag f.1), g.dynamic) := by
    have hself : attributesOf eng p n (back.map selfEntry ++ []) g.dynamic = _ :=
      attributesOf_self back [] g.dynamic
    simpa [attributesOf] using hself
  rw [attributesOf_self, attributesOf, exec_bind, exec_bind,
    exec_attributeOf_data hescape he hvalue hjson]
  simp only [hback, pure_bind]
  rfl

/-! ### The opening tag -/

/-- The characters of an opening tag. -/
def openingChars (name : String) (as : List String) : List Char :=
  '<' :: (name.toList ++ (as.flatMap (fun a => ' ' :: a.toList) ++ ['>']))

theorem blank_intercalate {as : List String} (h : as ≠ []) :
    ' ' :: (" ".intercalate as).toList = as.flatMap fun a => ' ' :: a.toList := by
  obtain ⟨a, as, rfl⟩ := List.exists_cons_of_ne_nil h
  rw [Text.intercalate_blank, String.toList_ofList, List.flatMap_cons, List.cons_append]

/-- The markup of a tag without identity and classes begins with its opening tag. -/
theorem openingChars_join {name html : String} {as : List String} {vs : List Value} (has : as ≠ [])
    (h : Markup.join (Markup.opening ⟨name, none, []⟩ ++ Markup.attributes as ++ vs) = .ok html) :
    ∃ rest, html.toList = openingChars name as ++ rest := by
  have hpieces : Markup.opening ⟨name, none, []⟩ ++ Markup.attributes as ++ vs =
      .text "<" :: .text name :: .text " " :: .text (" ".intercalate as) :: .text ">" :: vs := by
    have hempty : as.isEmpty = false := by simpa using has
    simp [Markup.opening, Markup.attributes, Tag.classText, hempty]
  rw [hpieces] at h
  obtain ⟨u₁, h₁, rfl⟩ := Markup.join_cons.mp h
  obtain ⟨u₂, h₂, rfl⟩ := Markup.join_cons.mp h₁
  obtain ⟨u₃, h₃, rfl⟩ := Markup.join_cons.mp h₂
  obtain ⟨u₄, h₄, rfl⟩ := Markup.join_cons.mp h₃
  obtain ⟨rest, -, rfl⟩ := Markup.join_cons.mp h₄
  refine ⟨rest.toList, ?_⟩
  rw [openingChars, ← blank_intercalate has]
  simp [String.toList_append]

/-- The result of an operation is its outcome. -/
theorem yields_ofCause {α : Type} (r : Except Cause α) : Yields (fun a => r = .ok a) (ofCause r) := by
  intro w a w' h
  cases r with
  | error c => cases h
  | ok b =>
    rw [exec_ofCause] at h
    cases h
    rfl

/-- The world in which the markup of a tag is remembered, unless it depends on the scope. -/
def keeping (eng : Engine) (n : Node) (html : String) (g : Group) (w : World) : World :=
  if eng.config.compact && !g.isDynamic then w.setMemo n.id ⟨some (.text html), some eng.id⟩ else w

/-- A tag is rendered to its markup, which is remembered if it may be. -/
theorem exec_tag_eq_ok_iff {v : Value} {g g' : Group} {w' : World} :
    exec (tag eng body p n g) w = (.ok (v, g'), w') ↔
      ∃ html w₁, exec (tagMarkup eng body p n g) w = (.ok (html, g'), w₁) ∧ v = .text html ∧
        w' = keeping eng n html g' w₁ := by
  have hlast (html : String) (g₁ : Group) (w₁ : World) :
      exec (do
        if eng.config.compact && !g₁.isDynamic then eng.remember n html
        return (.text html, g₁)) w₁ = (.ok ((.text html : Value), g₁), keeping eng n html g₁ w₁) := by
    rw [keeping]
    split <;> rfl
  simp only [tag, exec_bind_eq_ok_iff (x := tagMarkup eng body p n g), Prod.exists, hlast]
  constructor
  · rintro ⟨html, _, w₁, h, ⟨⟩⟩
    exact ⟨html, w₁, h, rfl, rfl⟩
  · rintro ⟨html, w₁, h, rfl, rfl⟩
    exact ⟨html, g', w₁, h, rfl⟩

/-- The markup of a tag begins with the opening tag that its attributes make. -/
theorem tag_opening {name : String} {as : List String} {g g₁ g' : Group} {html : String} {w' : World}
    (hsymbol : Tag.ofValue n.symbol = .ok ⟨name, none, []⟩) (has : as ≠ [])
    (hattributes : exec (attributesOf eng p n n.attributes g) w = (.ok (as, g₁), w₁))
    (h : exec (tag eng body p n g) w = (.ok (.text html, g'), w')) :
    ∃ rest, html.toList = openingChars name as ++ rest := by
  have hmarkup : ∀ r w', exec (tagMarkup eng body p n g) w = (.ok r, w') →
      ∃ rest, r.1.toList = openingChars name as ++ rest := by
    intro r w' hr
    have hname : exec (ofCause (.ok (⟨name, none, []⟩ : Tag))) w = (.ok ⟨name, none, []⟩, w) := rfl
    rw [tagMarkup, hsymbol, exec_bind_ok hname, exec_bind_ok hattributes] at hr
    refine Yields.bind (P := fun r => ∃ rest, r.1.toList = openingChars name as ++ rest)
      (fun cs => ?_) w₁ r w' hr
    refine Yields.bind fun bs => Yields.bind fun es => ?_
    refine (yields_ofCause _).bind_of fun html hjoin => Yields.pure ?_
    rw [List.append_assoc, List.append_assoc] at hjoin
    exact openingChars_join has hjoin
  obtain ⟨html', w₂, hr, hvalue, -⟩ := exec_tag_eq_ok_iff.mp h
  obtain rfl := Value.text.inj hvalue
  exact hmarkup _ _ hr

/-! ### The attribute as it is read -/

/-- What is found of an attribute that stands for itself. -/
def selfFound (f : String × Bool) : String × String := (f.1, f.1)

/-- What is found of a serialized value without quotes: what stands in front of white space. -/
def firstWord (j : String) : String :=
  String.ofList (j.toList.takeWhile fun c => !isBreak c)

/-- A text is its own first word just if it has no break. -/
theorem firstWord_eq_iff {j : String} : firstWord j = j ↔ ¬ Json.HasBreak j := by
  rw [firstWord, ← String.toList_inj, String.toList_ofList, List.takeWhile_eq_self_iff]
  simp [Json.HasBreak]

/-- The opening tag of a data attribute among others that stand for themselves. -/
theorem openingChars_data {name k j : String} {front back : List (String × Bool)} (t : List Char) :
    openingChars name (front.map (fun f => flag f.1) ++ written (dataKey k) (Text.escape j) ::
        back.map (fun f => flag f.1)) ++ t =
      '<' :: (name.toList ++ ((front.map (·.1.toList)).flatMap Reading.flagChars ++
        ' ' :: ((dataKey k).toList ++ '=' :: (j.toList.flatMap Text.escapeChar ++
          ((back.map (·.1.toList)).flatMap Reading.flagChars ++ '>' :: t))))) := by
  have hflag (fs : List (String × Bool)) :
      (fs.map fun f => flag f.1).flatMap (fun a => ' ' :: a.toList) =
        (fs.map (·.1.toList)).flatMap Reading.flagChars := by
    rw [List.flatMap_map, List.flatMap_map]
    refine List.flatMap_congr fun f _ => ?_
    simp [flag, Reading.flagChars, Reading.selfChars]
  simp [openingChars, List.flatMap_append, hflag, written, Text.escape]

/-- A reader of the opening tag finds the name, the attributes in front, and the first word of the
serialized value; and the tag ends where it is written to end.  Behind a value without white space it
finds the other attributes as well. -/
theorem openingTag?_openingChars {name k j : String} {front back : List (String × Bool)}
    {v : Value} (hname : IsWord name) (hk : IsWord k) (hfront : ∀ f ∈ front, IsWord f.1)
    (hback : ∀ f ∈ back, IsWord f.1) (hplain : Json.Plain v) (hjson : Json.write v = .ok j) :
    ∃ more, (∀ rest, openingTag? (openingChars name (front.map (fun f => flag f.1) ++
          written (dataKey k) (Text.escape j) :: back.map (fun f => flag f.1)) ++ rest) =
        some (name, front.map selfFound ++ (dataKey k, firstWord j) :: more, rest)) ∧
      (¬ Json.HasBreak j → more = back.map selfFound) := by
  obtain ⟨c, u, hu, hc⟩ := Json.head_write hplain hjson
  have hkeys {fs : List (String × Bool)} (hfs : ∀ f ∈ fs, IsWord f.1) :
      ∀ k ∈ fs.map (·.1.toList), Reading.IsKey k := by
    intro k hk
    obtain ⟨f, hf, rfl⟩ := List.mem_map.mp hk
    exact (hfs f hf).isKey
  have htwice (fs : List (String × Bool)) :
      (fs.map (·.1.toList)).map Reading.twice = fs.map selfFound := by
    simp [Reading.twice, selfFound]
  have hchars : ∀ c ∈ name.toList, isBreak c = false ∧ c ≠ '>' := fun c hc =>
    ⟨(hname.isKey.chars c hc).inside, (hname.isKey.chars c hc).bracket⟩
  have hhead : ∀ c ∈ j.toList.head?, isBreak c = false := by
    rw [hu]
    simpa using hc
  have hne : j.toList ≠ [] := by
    rw [hu]
    exact List.cons_ne_nil c u
  obtain ⟨more, hread, hall⟩ :=
    openingTag?_data hchars (isKey_dataKey hk) (hkeys hfront) (hkeys hback) hhead hne
  refine ⟨more, fun rest => ?_, fun hnone => ?_⟩
  · rw [openingChars_data, hread, htwice, String.ofList_toList, String.ofList_toList]
    rfl
  · have hclean : ∀ c ∈ j.toList, isBreak c = false := fun c hc =>
      Bool.eq_false_iff.mpr fun hbreak => hnone ⟨c, hc, hbreak⟩
    rw [hall hclean, htwice]

/-- **What becomes of a data attribute.**  The attributes of the tag are written one after the other,
the serialized value escaped and without quotes around it.  A reader of the markup finds the name of
the tag, the attributes in front, and what stands in front of the first white space of the serialized
value; and the tag ends where it is written to end.  It finds the attributes as they are if and only
if no text in the value has a blank. -/
theorem data_attribute {name k e j : String} {front back : List (String × Bool)} {v : Value}
    (hescape : eng.config.escape = Escape.markup) (hsymbol : n.symbol = .text name)
    (hname : IsWord name) (hk : IsWord k) (hfront : ∀ f ∈ front, IsWord f.1)
    (hback : ∀ f ∈ back, IsWord f.1)
    (hn : n.attributes = front.map selfEntry ++ (.text (dataKey k), .text e) :: back.map selfEntry)
    (he : e ≠ "") (hvalue : exec (evaluate eng p n (.text e)) w = (.ok v, w₁))
    (hplain : Json.Plain (w₁.heap.serial v)) (hjson : Json.write (w₁.heap.serial v) = .ok j)
    (g : Group) :
    exec (attributesOf eng p n n.attributes g) w =
      (.ok (front.map (fun f => flag f.1) ++ written (dataKey k) (Text.escape j) ::
        back.map (fun f => flag f.1), g.dynamic), w₁) ∧
    ∀ html g' w', exec (tag eng body p n g) w = (.ok (.text html, g'), w') →
      ∃ more rest,
        html.toList = openingChars name (front.map (fun f => flag f.1) ++
          written (dataKey k) (Text.escape j) :: back.map (fun f => flag f.1)) ++ rest ∧
        openingTag? html.toList =
          some (name, front.map selfFound ++ (dataKey k, firstWord j) :: more, rest) ∧
        (openingTag? html.toList =
            some (name, front.map selfFound ++ (dataKey k, j) :: back.map selfFound, rest) ↔
          ∀ t, Json.Mentions t (w₁.heap.serial v) → ' ' ∉ t.toList) := by
  have hattributes : exec (attributesOf eng p n n.attributes g) w =
      (.ok (front.map (fun f => flag f.1) ++ written (dataKey k) (Text.escape j) ::
        back.map (fun f => flag f.1), g.dynamic), w₁) := by
    rw [hn]
    exact exec_attributesOf_data hescape he hvalue hjson g
  refine ⟨hattributes, fun html g' w' h => ?_⟩
  have htag : Tag.ofValue n.symbol = .ok ⟨name, none, []⟩ := by
    rw [hsymbol, Tag.ofValue, Tag.ofSymbol_word hname]
  obtain ⟨rest, hrest⟩ := tag_opening htag (by simp) hattributes h
  obtain ⟨more, hread, hall⟩ := openingTag?_openingChars hname hk hfront hback hplain hjson
  have hread : openingTag? html.toList =
      some (name, front.map selfFound ++ (dataKey k, firstWord j) :: more, rest) := by
    rw [hrest, hread]
  refine ⟨more, rest, hrest, hread, ?_⟩
  -- white space cuts the value, and serialized data has it from the blanks in texts only
  have hblank : (∀ t, Json.Mentions t (w₁.heap.serial v) → ' ' ∉ t.toList) ↔ ¬ Json.HasBreak j := by
    rw [Json.hasBreak_write hplain hjson]
    simp
  rw [hblank, hread]
  constructor
  · intro heq
    have htail := List.append_cancel_left (congrArg (·.2.1) (Option.some.inj heq))
    exact firstWord_eq_iff.mp (congrArg Prod.snd (List.cons.inj htail).1)
  · intro hnone
    rw [firstWord_eq_iff.mpr hnone, hall hnone]

/-! ### A value with a blank -/

open Samples (engine leaf)

/-- A tag with a data attribute between two others. -/
def paragraph : Node :=
  { leaf 0 "p" "" with
    attributes := [(.text "a", .bool true), (.text "data-x", .text "v"), (.text "b", .bool false)] }

/-- Where the name `v` has a value. -/
def naming (v : Value) : Place := ⟨[(.text "v", v)], none⟩

/-- The world behind the evaluation of the name. -/
def namedWorld (v : Value) : World :=
  { World.empty with events := #[.evaluated 0 (naming v).scope .none (.text "v")] }

theorem isWord_paragraph : ∀ s ∈ ["p", "x", "a", "b"], IsWord s := by
  have hall : ["p", "x", "a", "b"].all (fun s => s != "" && s.toList.all Text.isAlnum) = true := by
    decide
  intro s hs
  have h := List.all_eq_true.mp hall s hs
  simp only [Bool.and_eq_true, bne_iff_ne] at h
  exact ⟨h.1, List.all_eq_true.mp h.2⟩

theorem data_attribute_bracket :
    exec (tag (engine 0) (Render.body (engine 0) 0) (naming (.text "a>b")) paragraph Group.start)
        World.empty =
      (.ok (.text "<p a=\"a\" data-x=&#34;a&gt;b&#34; b=\"b\"></p>", Group.start.dynamic),
        namedWorld (.text "a>b")) ∧
    ∃ rest, openingTag? "<p a=\"a\" data-x=&#34;a&gt;b&#34; b=\"b\"></p>".toList =
      some ("p", [("a", "a"), ("data-x", "\"a>b\""), ("b", "b")], rest) := by
  have hvalue : exec (evaluate (engine 0) (naming (.text "a>b")) paragraph (.text "v")) World.empty =
      (.ok (.text "a>b"), namedWorld (.text "a>b")) := rfl
  have hrun : exec (tag (engine 0) (Render.body (engine 0) 0) (naming (.text "a>b")) paragraph Group.start)
        World.empty =
      (.ok (.text "<p a=\"a\" data-x=&#34;a&gt;b&#34; b=\"b\"></p>", Group.start.dynamic),
        namedWorld (.text "a>b")) := rfl
  have hfront : ∀ f ∈ [("a", true)], IsWord f.1 :=
    List.forall_mem_singleton.mpr (isWord_paragraph "a" (by simp))
  have hback : ∀ f ∈ [("b", false)], IsWord f.1 :=
    List.forall_mem_singleton.mpr (isWord_paragraph "b" (by simp))
  have hjson : Json.write (.text "a>b") = .ok "\"a>b\"" := by decide
  obtain ⟨-, hmarkup⟩ := data_attribute rfl rfl (isWord_paragraph "p" (by simp))
    (isWord_paragraph "x" (by simp)) hfront hback rfl (by decide) hvalue (.text "a>b") hjson
    Group.start
  obtain ⟨more, rest, -, -, hread⟩ := hmarkup _ _ _ hrun
  refine ⟨hrun, rest, hread.mpr fun t ht => ?_⟩
  cases ht
  decide

/-- A blank in the value of a data attribute adds an attribute, and the value is not found. -/
theorem data_attribute_blank :
    exec (tag (engine 0) (Render.body (engine 0) 0) (naming (.text "a b")) paragraph Group.start)
        World.empty =
      (.ok (.text "<p a=\"a\" data-x=&#34;a b&#34; b=\"b\"></p>", Group.start.dynamic),
        namedWorld (.text "a b")) ∧
    Json.write (.text "a b") = .ok "\"a b\"" ∧
    openingTag? "<p a=\"a\" data-x=&#34;a b&#34; b=\"b\"></p>".toList =
      some ("p", [("a", "a"), ("data-x", "\"a"), ("b&#34;", ""), ("b", "b")], "</p>".toList) :=
  ⟨rfl, by decide, by decide⟩

end Render
end Trellis
