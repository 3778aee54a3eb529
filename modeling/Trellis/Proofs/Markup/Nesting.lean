import Trellis.Proofs.Markup.Joining
import Trellis.Proofs.Markup.Scanning
import Trellis.Proofs.Memos.Sessions
import Trellis.Samples

/-!
# Proofs — Markup — Nesting

Rendered markup is well nested (`Session.isNested_of_run`), whatever stands in the scope: all that
is put into it goes through `Escape.markup`, if the attributes that are expressions are data
attributes and no bracket is written out (`Node.Tidy`).

That the markup of tags is well nested around the markup in it is `neat_tag`; that pieces
stay so in groups, loops, mixins, includes and memos is what a policy is for (`Policy.nested`).
-/

namespace Trellis

/-! ### Tidy nodes -/

/-- A character that the symbol of a tag may have. -/
def Tag.isSymbolic (c : Char) : Bool :=
  !(c = '<' || c = '>' || c = '/' || c = '!' || Text.isBlank c)

/-- No brackets are written in a node, and expressions are written into data attributes only. -/
structure Node.Tidy (n : Node) : Prop where
  symbol : ∀ s, n.symbol = .text s → Role.ofSymbol s = .tag →
    s.toList.all Tag.isSymbolic = true
  keys : Role.ofValue n.symbol = .ok .tag → ∀ a ∈ n.attributes,
    Markup.isPlain a.1.plain.toList = true
  data : Role.ofValue n.symbol = .ok .tag → ∀ k v, (.text k, v) ∈ n.attributes →
    v.truth = true → (∀ b, v ≠ .bool b) → Markup.isData k = true
  content : Role.ofValue n.symbol = .ok .tag ∨ Role.ofValue n.symbol = .ok .text →
    ∀ s, n.content = .text s → n.unescaped = false → Header.expression? s.toList = none →
      Markup.isPlain s.toList = true
  comment : Role.ofValue n.symbol = .ok .comment → ∀ s, n.content = .text s →
    Markup.isPlain s.toList = true

/-- A node without any brackets, whose attributes are data attributes. -/
theorem Node.tidy_of_isPlain {n : Node} {symbol content : String} (hs : n.symbol = .text symbol)
    (hsymbol : symbol.toList.all Tag.isSymbolic = true) (hc : n.content = .text content)
    (hcontent : Markup.isPlain content.toList = true)
    (hkeys : ∀ a ∈ n.attributes, Markup.isPlain a.1.plain.toList = true ∧
      Markup.isData a.1.plain = true) : n.Tidy := by
  have hplain (s : String) (h : n.content = .text s) : Markup.isPlain s.toList = true := by
    rw [hc] at h
    exact Value.text.inj h ▸ hcontent
  refine ⟨fun s h _ => ?_, fun _ a ha => (hkeys a ha).1, fun _ k v hkv _ _ => (hkeys _ hkv).2,
    fun _ s h _ _ => hplain s h, fun _ s h => hplain s h⟩
  rw [hs] at h
  exact Value.text.inj h ▸ hsymbol

/-- Nodes are tidy, and no brackets are in texts. -/
def Admission.tidy : Admission :=
  ⟨Node.Tidy, fun s => Markup.isPlain s.toList = true⟩

/-! ### The parts of a tag -/

namespace Tag

/-- The parts of a symbol hold none but its characters. -/
theorem cut_subset (s : List Char) :
    (∀ c ∈ (cut s).1, c ∈ s) ∧ ∀ p ∈ (cut s).2, ∀ c ∈ p.2, c ∈ s := by
  induction s with
  | nil => simp [cut]
  | cons d s ih =>
    obtain ⟨ih₁, ih₂⟩ := ih
    simp only [cut]
    split
    · simp only [List.mem_cons, forall_eq_or_imp, List.not_mem_nil, false_implies, implies_true,
        true_and]
      exact ⟨fun c hc => .inr (ih₁ c hc), fun p hp c hc => .inr (ih₂ p hp c hc)⟩
    · simp only [List.mem_cons, forall_eq_or_imp, true_or, true_and]
      exact ⟨fun c hc => .inr (ih₁ c hc), fun p hp c hc => .inr (ih₂ p hp c hc)⟩

theorem behind_subset {s : String} {mark : Char} {t : String}
    (ht : t ∈ behind mark (parts s.toList)) : ∀ c ∈ t.toList, c ∈ s.toList := by
  simp only [behind, parts, List.mem_map, List.mem_filter] at ht
  obtain ⟨p, ⟨⟨hp, -⟩, -⟩, rfl⟩ := ht
  simpa using (cut_subset s.toList).2 p hp

/-- All characters in a tag satisfy `q`. -/
structure All (q : Char → Bool) (t : Tag) : Prop where
  name : t.name.toList.all q = true
  identity : ∀ i ∈ t.identity, i.toList.all q = true
  classes : ∀ c ∈ t.classes, c.toList.all q = true

/-- A tag has no other characters than its symbol and the name of a tag without one. -/
theorem all_ofSymbol {q : Char → Bool} {s : String} (hs : s.toList.all q = true)
    (hd : defaultName.toList.all q = true) : All q (ofSymbol s) := by
  have hq : ∀ c ∈ s.toList, q c = true := List.all_eq_true.mp hs
  refine ⟨?_, fun i hi => ?_, fun c hc => ?_⟩
  · simp only [ofSymbol]
    split
    · exact hd
    · rw [String.toList_ofList]
      exact List.all_eq_true.mpr fun c hc => hq c ((cut_subset _).1 c hc)
  · have hi := behind_subset (List.mem_of_getLast? hi)
    exact List.all_eq_true.mpr fun c hc => hq c (hi c hc)
  · exact List.all_eq_true.mpr fun d hd => hq d (behind_subset hc d hd)

/-- What holds of all characters of a symbol holds of all parts of its tag. -/
theorem all_ofValue {q : Char → Bool} {v : Value} {t : Tag} (h : ofValue v = .ok t)
    (hs : ∀ s, v = .text s → s.toList.all q = true) (hd : defaultName.toList.all q = true) :
    All q t := by
  unfold ofValue at h
  split at h
  · next s =>
    obtain rfl := Except.ok.inj h
    exact all_ofSymbol (hs s rfl) hd
  · split at h
    · cases h
    · obtain rfl := Except.ok.inj h
      exact all_ofSymbol rfl hd

end Tag

namespace Markup

/-! ### Texts without brackets -/

/-- Text is plain if both parts are. -/
theorem isPlain_append {s t : List Char} :
    isPlain (s ++ t) = (isPlain s && isPlain t) :=
  List.all_append

theorem isPlain_of_all {s : List Char} (h : s.all Tag.isSymbolic = true) : isPlain s = true := by
  refine List.all_eq_true.mpr fun c hc => ?_
  have := List.all_eq_true.mp h c hc
  simp only [Tag.isSymbolic, Bool.not_eq_true', Bool.or_eq_false_iff, decide_eq_false_iff_not]
    at this
  simp [this]

/-- Escaped text is plain. -/
theorem isPlain_escape (s : String) : isPlain (Text.escape s).toList = true := by
  have hc (c : Char) : isPlain (Text.escapeChar c) = true := by
    unfold Text.escapeChar
    split <;> try rfl
    simp_all [isPlain]
  rw [Text.escape, String.toList_ofList, isPlain, List.all_flatMap]
  exact List.all_eq_true.mpr fun c _ => hc c

theorem isPlain_intercalate {ss : List String} (h : ∀ s ∈ ss, isPlain s.toList = true) :
    isPlain (" ".intercalate ss).toList = true := by
  rw [String.toList_intercalate]
  induction ss with
  | nil => rfl
  | cons s ss ih =>
    obtain ⟨hs, hss⟩ := List.forall_mem_cons.mp h
    cases ss with
    | nil => simpa using hs
    | cons t ss =>
      rw [List.map_cons, List.map_cons, List.intercalate_cons_cons, isPlain_append, isPlain_append,
        hs]
      exact ih hss

/-! ### Attributes -/

section Attributes

variable {key : String} (hk : isPlain key.toList = true)
include hk

theorem isPlain_flag : isPlain (flag key).toList = true := by
  simp only [flag, String.toList_append, isPlain_append, hk]
  rfl

theorem isPlain_emptyAttribute {s : String} (hs : emptyAttribute? key = some s) :
    isPlain s.toList = true := by
  unfold emptyAttribute? at hs
  split at hs
  · cases hs
  · obtain rfl := Option.some.inj hs
    simp only [String.toList_append, isPlain_append, hk]
    rfl

/-- A written attribute is plain if its value is. -/
theorem isPlain_written {s : String} (hs : isPlain s.toList = true) :
    isPlain (written key s).toList = true := by
  simp only [written, String.toList_append, isPlain_append, hk, hs]
  rfl

end Attributes

/-- What stands in a tag behind its name: nothing, or a blank and no brackets. -/
structure Behind (s : List Char) : Prop where
  plain : isPlain s = true
  blank : ∀ c ∈ s.head?, Text.isBlank c = true

theorem Behind.nil : Behind [] := ⟨rfl, by simp⟩

theorem Behind.cons {s : List Char} (h : isPlain s = true) : Behind (' ' :: s) :=
  ⟨h, by simp; rfl⟩

/-- Attributes behind attributes are behind a name. -/
theorem Behind.append {s t : List Char} (hs : Behind s) (ht : Behind t) : Behind (s ++ t) := by
  refine ⟨by rw [isPlain_append, hs.plain, ht.plain]; rfl, ?_⟩
  cases s with
  | nil => exact ht.blank
  | cons c s => exact hs.blank

/-- The identity, the classes and the attributes of a tag. -/
def settings (t : Tag) (as : List String) : List Char :=
  (t.identity.elim [] fun i => ' ' :: ("id=\"".toList ++ i.toList ++ ['"'])) ++
  (t.classText.elim [] fun c => ' ' :: ("class=\"".toList ++ c.toList ++ ['"'])) ++
  (if as.isEmpty then [] else ' ' :: (" ".intercalate as).toList)

/-- A tag up to its content. -/
theorem toList_opening {t : Tag} {as : List String} {i : Nat} {s : String}
    (h : joinFrom i (opening t ++ attributes as) = .ok s) :
    s.toList = '<' :: (t.name.toList ++ settings t as ++ ['>']) := by
  unfold opening attributes at h
  unfold settings
  generalize t.identity = identity, t.classText = classText, as.isEmpty = isEmpty at h ⊢
  cases identity <;> cases classText <;> cases isEmpty <;>
    simp only [joinFrom, Except.map, List.cons_append, List.nil_append, List.append_nil, if_true,
      Bool.false_eq_true, if_false, Except.ok.injEq] at h <;>
    subst h <;> simp

/-- The attributes of a tag are written behind its name. -/
theorem behind_settings {t : Tag} (ht : t.All Tag.isSymbolic) {as : List String}
    (has : ∀ a ∈ as, isPlain a.toList = true) : Behind (settings t as) := by
  have hquoted {key : String} {s : String} (hk : isPlain key.toList = true)
      (hs : isPlain s.toList = true) : Behind (' ' :: (key.toList ++ s.toList ++ ['"'])) := by
    refine .cons ?_
    rw [isPlain_append, isPlain_append, hk, hs]
    rfl
  refine .append (.append ?_ ?_) ?_
  · cases hi : t.identity with
    | none => exact .nil
    | some i => exact hquoted rfl (isPlain_of_all (ht.identity i hi))
  · cases hc : t.classText with
    | none => exact .nil
    | some c =>
      refine hquoted rfl ?_
      unfold Tag.classText at hc
      split at hc
      · cases hc
      · obtain rfl := Option.some.inj hc
        exact isPlain_intercalate fun c hc => isPlain_of_all (ht.classes c hc)
  · split
    · exact .nil
    · exact .cons (isPlain_intercalate has)

/-! ### Tags -/

/-- A name and what stands behind it start with a character that a symbol may have, or a blank. -/
theorem Behind.head_ne {s : List Char} (hs : Behind s) {name : List Char}
    (hn : name.all Tag.isSymbolic = true) {c : Char} (hc : Tag.isSymbolic c = false)
    (hb : Text.isBlank c = false) : (name ++ s).head? ≠ some c := by
  intro h
  cases name with
  | nil =>
    have := hs.blank c h
    rw [hb] at this
    cases this
  | cons d name =>
    obtain rfl : d = c := Option.some.inj h
    have := List.all_eq_true.mp hn d List.mem_cons_self
    rw [hc] at this
    cases this

theorem Mark.ofChars_of_head {s : List Char} (h : s.head? ≠ some '/') :
    Mark.ofChars s = .opening (String.ofList (s.takeWhile fun c => !Text.isBlank c)) := by
  unfold Mark.ofChars
  split
  · exact absurd rfl h
  · rfl

/-- The name of a tag is read up to what stands behind it. -/
theorem Mark.ofChars_behind {name : String} (hn : name.toList.all Tag.isSymbolic = true)
    {s : List Char} (hs : Behind s) : Mark.ofChars (name.toList ++ s) = .opening name := by
  have hname : ∀ c ∈ name.toList, (!Text.isBlank c) = true := by
    intro c hc
    have := List.all_eq_true.mp hn c hc
    simp only [Tag.isSymbolic, Bool.not_eq_true', Bool.or_eq_false_iff] at this
    simp [this.2]
  have hbehind : (s.takeWhile fun c => !Text.isBlank c) = [] := by
    cases s with
    | nil => rfl
    | cons c s => simp [hs.blank c rfl]
  rw [Mark.ofChars_of_head (hs.head_ne hn rfl rfl), List.takeWhile_append_of_pos hname, hbehind,
    List.append_nil, String.ofList_toList]

/-- The opening of a tag. -/
theorem scans_opening {t : Tag} (ht : t.All Tag.isSymbolic) {as : List String}
    (has : ∀ a ∈ as, isPlain a.toList = true) {i : Nat} {s : String}
    (h : joinFrom i (opening t ++ attributes as) = .ok s) : Scans s.toList [.opening t.name] := by
  have hb := behind_settings ht has
  rw [toList_opening h, ← Mark.ofChars_behind ht.name hb]
  refine scans_brackets ?_ (hb.head_ne ht.name rfl rfl)
  rw [isPlain_append, isPlain_of_all ht.name, hb.plain]
  rfl

/-- The names of the tags that are never closed. -/
def isVoid (voidTags : Value) (name : String) : Bool :=
  match nameOccurs name voidTags with
  | .ok b => b
  | .error _ => false

/-- The closing of a tag, if it is ever closed. -/
theorem scans_closing {t : Tag} (ht : t.All Tag.isSymbolic) {voidTags : Value} {es : List Value}
    (hes : closing voidTags t = .ok es) {i : Nat} {s : String} (h : joinFrom i es = .ok s) :
    isVoid voidTags t.name = true ∧ s = "" ∨
      isVoid voidTags t.name = false ∧ Scans s.toList [.closing t.name] := by
  unfold closing at hes
  unfold isVoid
  cases hv : nameOccurs t.name voidTags with
  | error c =>
    rw [hv] at hes
    cases hes
  | ok b =>
    rw [hv] at hes
    cases b with
    | true =>
      obtain rfl := Except.ok.inj hes
      exact .inl ⟨rfl, (Except.ok.inj h).symm⟩
    | false =>
      obtain rfl := Except.ok.inj hes
      obtain rfl : "</" ++ (t.name ++ (">" ++ "")) = s := Except.ok.inj h
      have hplain : isPlain t.name.toList = true := isPlain_of_all ht.name
      have hs := scans_brackets (s := '/' :: t.name.toList) (by simpa [isPlain] using hplain)
        (by simp)
      rw [Mark.ofChars, String.ofList_toList] at hs
      refine .inr ⟨rfl, ?_⟩
      simpa using hs

/-! ### Well-nested pieces -/

/-- Markup that is well nested behind whatever is open, and scanned whatever follows. -/
def Neat (isVoid : String → Bool) (s : String) : Prop :=
  ∃ ms, Scans s.toList ms ∧ Neutral isVoid ms

namespace Neat

variable {isVoid : String → Bool} {s t : String}

/-- Plain text is neat: there are no tags in it. -/
theorem of_isPlain (h : isPlain s.toList = true) : Neat isVoid s :=
  ⟨[], .of_isPlain h, .nil⟩

/-- Neat markup behind neat markup is neat. -/
theorem append (hs : Neat isVoid s) (ht : Neat isVoid t) : Neat isVoid (s ++ t) := by
  obtain ⟨ms, hs, hms⟩ := hs
  obtain ⟨ns, ht, hns⟩ := ht
  exact ⟨ms ++ ns, by simpa using hs.append ht, hms.append hns⟩

/-- Neat markup is nested. -/
theorem isNested (h : Neat isVoid s) : Markup.isNested isVoid s = true := by
  obtain ⟨ms, hs, hms⟩ := h
  exact isNested_of_scans hs hms

/-- Pieces that are joined. -/
theorem join {vs : List Value} (h : ∀ s, .text s ∈ vs → Neat isVoid s) {i : Nat}
    (hs : joinFrom i vs = .ok s) : Neat isVoid s :=
  of_joinFrom (of_isPlain rfl) (fun _ _ => append) h hs

end Neat

/-- Texts without brackets that are joined. -/
theorem isPlain_of_joinFrom {vs : List Value} (h : ∀ s, .text s ∈ vs → isPlain s.toList = true)
    {i : Nat} {s : String} (hs : joinFrom i vs = .ok s) : isPlain s.toList = true := by
  refine of_joinFrom (P := fun s => isPlain s.toList = true) rfl (fun s t hs ht => ?_) h hs
  rw [String.toList_append, isPlain_append, hs, ht]
  rfl

/-- A comment of plain text is neat. -/
theorem Neat.comment {isVoid : String → Bool} {s : String} (h : isPlain s.toList = true) :
    Neat isVoid ("<!--" ++ s ++ "-->") :=
  ⟨[], by simpa using scans_comment h, .nil⟩

/-- **A tag around neat markup is neat.** -/
theorem neat_tag {t : Tag} (ht : t.All Tag.isSymbolic) {as : List String}
    (has : ∀ a ∈ as, isPlain a.toList = true) {cs bs es : List Value} {voidTags : Value}
    (hcs : ∀ s, .text s ∈ cs → isPlain s.toList = true)
    (hbs : ∀ s, .text s ∈ bs → Neat (isVoid voidTags) s) (hes : closing voidTags t = .ok es)
    {html : String} (h : join (opening t ++ attributes as ++ cs ++ bs ++ es) = .ok html) :
    Neat (isVoid voidTags) html := by
  obtain ⟨_, e, hocb, he, rfl⟩ := (joinFrom_append_iff (j := 0) (k := 0)).mp h
  obtain ⟨_, b, hoc, hb, rfl⟩ := (joinFrom_append_iff (j := 0) (k := 0)).mp hocb
  obtain ⟨o, c, ho, hc, rfl⟩ := (joinFrom_append_iff (j := 0) (k := 0)).mp hoc
  have hinner : Neat (isVoid voidTags) (c ++ b) :=
    (Neat.of_isPlain (isPlain_of_joinFrom hcs hc)).append (.join hbs hb)
  obtain ⟨ms, hms, hneutral⟩ := hinner
  have hopening := scans_opening ht has ho
  rcases scans_closing ht hes he with ⟨hv, rfl⟩ | ⟨hv, hclosing⟩
  · exact ⟨_, by simpa using hopening.append hms, hneutral.of_void hv⟩
  · exact ⟨_, by simpa using (hopening.append hms).append hclosing, hneutral.of_tag hv⟩

end Markup

/-! ### The policy -/

open Markup (isPlain isVoid Neat)

/-- What the usual escape function gives is plain text. -/
theorem Escape.isPlain_markup {v u : Value} (h : Escape.markup v = .ok u) :
    ∃ s, u = .text s ∧ isPlain s.toList = true :=
  ⟨_, (Except.ok.inj h).symm, Markup.isPlain_escape _⟩

/-- Pieces that an engine with the usual way to escape makes of tidy nodes are neat. -/
def Policy.nested (eng : Engine) (hescape : eng.config.escape = Escape.markup) : Policy eng where
  toAdmission := .tidy
  content v := ∀ s, v = .text s → isPlain s.toList = true
  setting s := isPlain s.toList = true
  piece v := ∀ s, v = .text s → Neat (isVoid eng.config.voidTags) s
  joined hvs h s hs := by
    obtain rfl := Value.text.inj hs
    exact .join (fun s hs => hvs _ hs s rfl) h
  appended hs ht u hu := by
    obtain rfl := Value.text.inj hu
    exact (hs _ rfl).append (ht _ rfl)
  included h s hs := by
    obtain rfl := Value.text.inj hs
    exact .of_isPlain h
  plain {n s} hn hr hu hs he t ht := by
    rw [ht] at hs
    obtain rfl : t.toList = s := Except.ok.inj hs
    exact hn.content hr t ht hu he
  escaped {v u} h s hs := by
    rw [hescape] at h
    obtain ⟨t, rfl, ht⟩ := Escape.isPlain_markup h
    exact Value.text.inj hs ▸ ht
  spaced {v u} hv h s hs := by
    cases v with
    | text t =>
      obtain rfl := Except.ok.inj h
      obtain rfl := Value.text.inj hs
      exact .append (.of_isPlain rfl) (.of_isPlain (hv t rfl))
    | _ => cases h
  commented {n u} hn hr h s hs := by
    cases hc : n.content with
    | text t =>
      rw [hc] at h
      obtain rfl := Except.ok.inj h
      obtain rfl := Value.text.inj hs
      exact .comment (hn.comment hr t hc)
    | _ =>
      rw [hc] at h
      cases h
  flagged hn hr hkv := Markup.isPlain_flag (hn.keys hr _ hkv)
  emptied hn hr hkv hs := Markup.isPlain_emptyAttribute (hn.keys hr _ hkv) hs
  written t hn hr hkv ht hv hd := by
    rw [hn.data hr _ _ hkv ht hv] at hd
    cases hd
  writtenData hn hr hkv h := by
    rw [hescape] at h
    obtain ⟨s, rfl, hs⟩ := Escape.isPlain_markup h
    exact Markup.isPlain_written (hn.keys hr _ hkv) hs
  tagged {n t as cs bs es html} hn hr ht has hcs hbs hes h s hs := by
    obtain rfl := Value.text.inj hs
    have hrole (s : String) (hs : n.symbol = .text s) : s.toList.all Tag.isSymbolic = true := by
      rw [hs] at hr
      exact hn.symbol s hs (Except.ok.inj hr)
    exact Markup.neat_tag (Tag.all_ofValue ht hrole rfl) has (fun s hs => hcs _ hs s rfl)
      (fun s hs => hbs _ hs s rfl) hes h

/-! ### Sessions -/

namespace Session

/-- **Rendered markup is well nested.**  Engines render in a session in turn.  All trees, sources
and mixins are tidy, and no plugin of engine `i`, which escapes as usual, gives brackets.  Then all
markup that the engine renders is well nested, whatever its void tags are, and whatever stands in
the scopes. -/
theorem isNested_of_run {team : Nat → Engine} (hteam : ∀ i, (team i).id = i) {i : Nat}
    (hescape : (team i).config.escape = Escape.markup) {S : Set Node} {s : Session}
    {calls : List Call} (hs : Begins S s calls) (hall : Admission.tidy.Allows S s calls)
    (hplugins : ∀ name position q source attributes html,
      ((team i).registryIn s.world).load name position = .ok q →
        q.call source attributes = .ok (.text html) → isPlain html.toList = true)
    {depth : Nat} (hend : ∀ o ∈ run team depth s calls, o.outcome ≠ .error .exhausted)
    {o : Observation} (ho : o ∈ run team depth s calls) (hi : o.engine = i) {html : String}
    (hh : o.outcome = .ok html) :
    Markup.isNested (isVoid (team i).config.voidTags) html = true := by
  have hpiece := Policy.run_pieces hteam (Policy.nested (team i) hescape) hs hall
    (fun name position q source attributes v hq hv t ht =>
      .of_isPlain (hplugins name position q source attributes t hq (ht ▸ hv))) hend ho hi hh
  exact (hpiece html rfl).isNested

open Samples (node leaf)

/-- A tag with a void tag, a comment and a text. -/
def article : Node :=
  { node 1 "p.a#b" "" [leaf 2 "x" "", leaf 3 "comment" "note", leaf 4 "|" "= v"] with
    attributes := [(.text "data-k", .text "v")] }

/-- A page with the article on it. -/
def sheet : Node :=
  node 0 "" "" [article]

/-- The nodes on the page. -/
def sheetNodes : Set Node :=
  {n | n = sheet ∨ n = article ∨ n = leaf 2 "x" "" ∨ n = leaf 3 "comment" "note" ∨
    n = leaf 4 "|" "= v"}

/-- A session may begin with the nodes of the sheet in use. -/
theorem begins_sheet : Begins sheetNodes (fresh 5) (turns sheet [1, 1]) := by
  refine begins_fresh ⟨fun n hn => ?_, fun n hn m hm => ?_, fun m hm n hn h => ?_⟩ fun d hd => ?_
  · show n.id < 5
    rcases hn with rfl | rfl | rfl | rfl | rfl <;> decide
  · rcases hn with rfl | rfl | rfl | rfl | rfl
    · exact .inr (.inl (by simpa [sheet, node] using hm))
    · exact .inr (.inr (by simpa [article, node] using hm))
    all_goals cases hm
  · rcases hm with rfl | rfl | rfl | rfl | rfl <;> rcases hn with rfl | rfl | rfl | rfl | rfl <;>
      first | rfl | cases h
  · obtain ⟨i, -, rfl⟩ := List.mem_map.mp hd
    exact .inl rfl

theorem allows_sheet : Admission.tidy.Allows sheetNodes (fresh 5) (turns sheet [1, 1]) := by
  have hnodes : ∀ n ∈ sheetNodes, n.Tidy := by
    rintro n (rfl | rfl | rfl | rfl | rfl) <;>
      exact Node.tidy_of_isPlain rfl (by decide) rfl (by decide) (by decide)
  refine ⟨hnodes, fun k => ?_, fun c hc i n j hn m hm => ?_⟩
  · simp [fresh, World.empty, World.loader, Admission.Loads]
  · obtain ⟨i, -, rfl⟩ := List.mem_map.mp hc
    cases hn
    exact hnodes m (Policy.under_mem begins_sheet.census.closed (.inl rfl) hm)

/-- The expressions give a bracket each, and the tag `x` is void. -/
theorem isNested_of_run_sheet :
    (run printers 3 (fresh 5) (turns sheet [1, 1])).map (·.outcome) =
      [.ok "<p id=\"b\" class=\"a\" data-k=&#34;&lt;&#34;><x><!--note--> &lt;</p>",
        .ok "<p id=\"b\" class=\"a\" data-k=&#34;&lt;&#34;><x><!--note--> &lt;</p>"] ∧
    Markup.isNested (isVoid (printers 1).config.voidTags)
      "<p id=\"b\" class=\"a\" data-k=&#34;&lt;&#34;><x><!--note--> &lt;</p>" = true := by
  have houtcomes : (run printers 3 (fresh 5) (turns sheet [1, 1])).map (·.outcome) =
      [.ok "<p id=\"b\" class=\"a\" data-k=&#34;&lt;&#34;><x><!--note--> &lt;</p>",
        .ok "<p id=\"b\" class=\"a\" data-k=&#34;&lt;&#34;><x><!--note--> &lt;</p>"] := by cbv
  have hend : ∀ o ∈ run printers 3 (fresh 5) (turns sheet [1, 1]),
      o.outcome ≠ .error .exhausted := by
    intro o ho h
    have hm := List.mem_map_of_mem (f := Observation.outcome) ho
    rw [houtcomes, h] at hm
    simp at hm
  have hplugins : ∀ name position q source attributes html,
      ((printers 1).registryIn (fresh 5).world).load name position = .ok q →
        q.call source attributes = .ok (.text html) → isPlain html.toList = true := by
    intro name position q source attributes html hq
    simp [Engine.registryIn, fresh, World.empty, Registry.empty, Registry.load, printers,
      Samples.engine, Config.default] at hq
  refine ⟨houtcomes, ?_⟩
  exact isNested_of_run (fun _ => rfl) rfl begins_sheet allows_sheet hplugins hend
    (List.mem_cons_self) rfl (List.cons.inj houtcomes).1

end Session

end Trellis
