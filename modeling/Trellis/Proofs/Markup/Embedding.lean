import Trellis.Proofs.Headers.Formats
import Trellis.Proofs.Markup.DataAttributes
import Trellis.Samples

/-!
# Proofs — Markup — Embedding

Values and literal texts in the content of a node, as they are put into markup.

* `IsInert u`: no character of `u` means anything in markup but the ampersands of entities.  All
  escaped texts are inert (`isInert_escape`).
* `decodeOnce u`: `u` with its entities decoded, from the left and once.  Of an escaped text this is
  the text (`decodeOnce_escape`).
* `Render.Embeds eng p n w t w'`: the content of the node stands for the text `t`, which is the
  content itself where it is not evaluated and the form of its value otherwise.
* `Render.embedded_content`: what texts and tags put into the markup for such a content is the
  escaped text, and nothing else.
-/

namespace Trellis.Markup

variable {c : Char} {s u rest front back : List Char}

/-! ### Entities -/

/-- The five entities, with the characters that they stand for. -/
def entities : List (List Char × Char) :=
  [("&amp;".toList, '&'), ("&lt;".toList, '<'), ("&gt;".toList, '>'), ("&#39;".toList, '\''),
    ("&#34;".toList, '"')]

/-- A text with the entities in it decoded, behind as many characters of an entity that is decoded
already. -/
def decodeFrom : (behind : Nat) → List Char → List Char
  | _, [] => []
  | behind + 1, _ :: s => decodeFrom behind s
  | 0, c :: s =>
    match entities.find? fun e => e.1.isPrefixOf (c :: s) with
    | some e => e.2 :: decodeFrom (e.1.length - 1) s
    | none => c :: decodeFrom 0 s

/-- A text with the entities in it decoded, from the left and once. -/
def decodeOnce (s : List Char) : List Char := decodeFrom 0 s

/-- An escaped character is decoded as it was. -/
theorem decodeFrom_escapeChar (c : Char) (s : List Char) :
    decodeFrom 0 (Text.escapeChar c ++ s) = c :: decodeFrom 0 s := by
  by_cases hc : c ∈ special
  · simp only [special, List.mem_cons, List.not_mem_nil, or_false] at hc
    obtain rfl | rfl | rfl | rfl | rfl := hc <;> rfl
  · have hamp : '&' ≠ c := fun h => hc (h ▸ List.mem_cons_self)
    have hnone : (entities.find? fun e => e.1.isPrefixOf (c :: s)) = none := by
      simp [entities, hamp]
    rw [escapeChar_of_not_mem hc, List.singleton_append, decodeFrom, hnone]

/-- **An escaped text can be read back.** -/
theorem decodeOnce_escape (s : List Char) : decodeOnce (s.flatMap Text.escapeChar) = s := by
  unfold decodeOnce
  induction s with
  | nil => rfl
  | cons c s ih => rw [List.flatMap_cons, decodeFrom_escapeChar, ih]

example :
    decodeOnce "&amp;lt;&lt;b&#39;&#34;&gt; & &quot;".toList = "&lt;<b'\"> & &quot;".toList := by
  decide

/-! ### Inert texts -/

/-- No character of the text means anything in markup, but ampersands at the start of entities. -/
structure IsInert (u : List Char) : Prop where
  plain : ∀ c ∈ u, c ∉ ['<', '>', '"', '\'']
  entity : ∀ front back, u = front ++ '&' :: back → ∃ e ∈ entities, e.1 <+: '&' :: back

/-- A character, or the entity of one. -/
theorem escapeChar_cases (c : Char) : ∃ a tail, Text.escapeChar c = a :: tail ∧ '&' ∉ tail ∧
    (∀ d ∈ Text.escapeChar c, d ∉ ['<', '>', '"', '\'']) ∧
    (a = '&' → ∃ e ∈ entities, e.1 = a :: tail) := by
  by_cases hc : c ∈ special
  · simp only [special, List.mem_cons, List.not_mem_nil, or_false] at hc
    obtain rfl | rfl | rfl | rfl | rfl := hc <;> exact ⟨_, _, rfl, by decide, by decide, by decide⟩
  · refine ⟨c, [], escapeChar_of_not_mem hc, by simp, ?_, ?_⟩
    · rw [escapeChar_of_not_mem hc, List.forall_mem_singleton]
      simp only [special, List.mem_cons, List.not_mem_nil, or_false, not_or] at hc ⊢
      exact ⟨hc.2.1, hc.2.2.1, hc.2.2.2.2, hc.2.2.2.1⟩
    · rintro rfl
      exact absurd (by decide) hc

/-- An ampersand is the first character of the front, or it is behind the front. -/
theorem ampersand_cases {a : Char} {tail : List Char} (ht : '&' ∉ tail)
    (h : a :: tail ++ rest = front ++ '&' :: back) :
    (a = '&' ∧ tail ++ rest = back) ∨ ∃ front', rest = front' ++ '&' :: back := by
  cases front with
  | nil => exact .inl (List.cons.inj h)
  | cons b front =>
      obtain ⟨-, h⟩ := List.cons.inj h
      rcases List.append_eq_append_iff.mp h with ⟨x, -, hx⟩ | ⟨x, htail, hx⟩
      · exact .inr ⟨x, hx⟩
      · cases x with
        | nil => exact .inr ⟨[], hx.symm⟩
        | cons d x =>
            obtain ⟨rfl, -⟩ := List.cons.inj hx
            exact absurd (by rw [htail]; simp) ht

/-- **An escaped text is inert.** -/
theorem isInert_escape (s : List Char) : IsInert (s.flatMap Text.escapeChar) where
  plain c hc := by
    obtain ⟨d, -, hd⟩ := List.mem_flatMap.mp hc
    obtain ⟨-, -, -, -, hplain, -⟩ := escapeChar_cases d
    exact hplain c hd
  entity front back h := by
    induction s generalizing front with
    | nil => simp at h
    | cons c s ih =>
        obtain ⟨a, tail, hcode, ht, -, hentity⟩ := escapeChar_cases c
        rw [List.flatMap_cons, hcode] at h
        rcases ampersand_cases ht h with ⟨rfl, rfl⟩ | ⟨front', hrest⟩
        · obtain ⟨e, he, hcode⟩ := hentity rfl
          exact ⟨e, he, hcode ▸ List.prefix_append _ _⟩
        · exact ih front' hrest

/-- Different texts are written differently. -/
theorem escape_injective {s t : String} (h : Text.escape s = Text.escape t) : s = t := by
  have := congrArg (fun x => decodeOnce x.toList) h
  simp only [Text.escape, String.toList_ofList, decodeOnce_escape] at this
  exact String.toList_inj.mp this

end Trellis.Markup

namespace Trellis.Render

open Rendering Markup

variable {eng : Engine} {body : Body} {p : Place} {n : Node} {g g' : Group} {t : String} {v : Value}
  {w w' : World}

/-! ### Contents -/

/-- The content is a text that is not evaluated, or an expression behind an equals sign. -/
def IsEmbedded (n : Node) : Prop :=
  ∃ s, n.content = .text s ∧ (n.unescaped = true ∨ (Header.expression? s.toList).isSome = true)

/-- Between two worlds, the content of the node stands for a text: for itself where it is not
evaluated, and otherwise for the form of its value. -/
inductive Embeds (eng : Engine) (p : Place) (n : Node) : World → String → World → Prop where
  | literal {w : World} {t : String} (h : n.unescaped = true) (hc : n.content = .text t) :
      Embeds eng p n w t w
  | value {w w' : World} {s t : String} {e : List Char} {v : Value} (h : n.unescaped = false)
      (hc : n.content = .text s) (he : Header.expression? s.toList = some e)
      (hv : exec (evaluate eng p n (.text (Markup.expression e))) w = (.ok v, w'))
      (ht : (Action.embedded v).run.run w'.heap = (.ok t, w'.heap)) : Embeds eng p n w t w'

/-- Unescaped content is embedded as it is. -/
theorem embeds_literal_iff {s : String} (hu : n.unescaped = true) (hs : n.content = .text s) :
    Embeds eng p n w t w' ↔ t = s ∧ w' = w := by
  constructor
  · intro h
    cases h with
    | literal _ hc => exact ⟨Value.text.inj (hc.symm.trans hs), rfl⟩
    | value h => rw [hu] at h; cases h
  · rintro ⟨rfl, rfl⟩
    exact .literal hu hs

/-- The value of an expression is embedded as its text. -/
theorem embeds_value_iff {s : String} {e : List Char} (hu : n.unescaped = false)
    (hs : n.content = .text s) (he : Header.expression? s.toList = some e) :
    Embeds eng p n w t w' ↔
      ∃ v, exec (evaluate eng p n (.text (Markup.expression e))) w = (.ok v, w') ∧
        (Action.embedded v).run.run w'.heap = (.ok t, w'.heap) := by
  constructor
  · intro h
    cases h with
    | literal h => rw [hu] at h; cases h
    | value _ hc he' hv ht =>
        obtain rfl := Value.text.inj (hs.symm.trans hc)
        obtain rfl := Option.some.inj (he.symm.trans he')
        exact ⟨_, hv, ht⟩
  · rintro ⟨v, hv, ht⟩
    exact .value hu hs he hv ht

/-- The state of the group behind the content: what is evaluated depends on the scope. -/
def behindContent (n : Node) (g : Group) : Group :=
  if n.unescaped then g else g.dynamic

/-- The form of a value is found without a change of anything. -/
theorem exec_embedded_eq_ok_iff :
    exec (onHeap (Action.embedded v)) w = (.ok t, w') ↔
      w' = w ∧ (Action.embedded v).run.run w.heap = (.ok t, w.heap) := by
  rw [exec_onHeap, Placeholders.run_embedded]
  split
  · exact iff_of_false nofun fun h => nomatch h.2
  · rw [Prod.mk.injEq, Prod.mk.injEq, and_comm, eq_comm]
    simp

/-- The content of a node with an expression is its value, escaped. -/
theorem content_value {s : String} {e : List Char} (hu : n.unescaped = false)
    (hs : n.content = .text s) (he : Header.expression? s.toList = some e) :
    content eng p n g = do
      let v ← evaluate eng p n (.text (Markup.expression e))
      let t ← onHeap (Action.embedded v)
      return (← eng.escape (.text t), g.dynamic) := by
  simp only [content, hu, Bool.false_eq_true, if_false, hs, searchable, ofCause, pure_bind, he]

/-- A content is put into markup as the text that it stands for, escaped. -/
theorem exec_content_eq_ok_iff (hescape : eng.config.escape = Escape.markup) (hn : IsEmbedded n) :
    exec (content eng p n g) w = (.ok (v, g'), w') ↔
      ∃ t, Embeds eng p n w t w' ∧ v = .text (Text.escape t) ∧ g' = behindContent n g := by
  obtain ⟨s, hs, hn⟩ := hn
  cases hu : n.unescaped with
  | true =>
      simp only [content, hu, if_true, hs, exec_bind_ok (exec_escape hescape s w), exec_pure,
        embeds_literal_iff hu hs, behindContent]
      constructor
      · rintro ⟨⟩
        exact ⟨s, ⟨rfl, rfl⟩, rfl, rfl⟩
      · rintro ⟨_, ⟨rfl, rfl⟩, rfl, rfl⟩
        rfl
  | false =>
      obtain ⟨e, he⟩ := Option.isSome_iff_exists.mp (hn.resolve_left (by simp [hu]))
      simp only [content_value hu hs he, exec_bind_eq_ok_iff, exec_embedded_eq_ok_iff,
        exec_escape hescape, exec_pure, embeds_value_iff hu hs he, behindContent, hu,
        Bool.false_eq_true, if_false]
      constructor
      · rintro ⟨v, w₁, hv, t, _, ⟨rfl, ht⟩, _, _, ⟨⟩, ⟨⟩⟩
        exact ⟨t, ⟨v, hv, ht⟩, rfl, rfl⟩
      · rintro ⟨t, ⟨v, hv, ht⟩, rfl, rfl⟩
        exact ⟨v, _, hv, t, _, ⟨rfl, ht⟩, _, _, rfl, rfl⟩

/-! ### Texts and tags -/

/-- The markup of a tag in front of its content: all of the opening tag. -/
def front (eng : Engine) (p : Place) (n : Node) (g : Group) : Rendering (String × Group) := do
  let t ← ofCause (Tag.ofValue n.symbol)
  let (as, g) ← attributesOf eng p n n.attributes g
  return (← ofCause (join (opening t ++ attributes as)), g)

/-- The markup of a tag behind its content: the children, and the closing tag if there is one. -/
def back (eng : Engine) (body : Body) (p : Place) (n : Node) (g : Group) :
    Rendering (String × Group) := do
  let t ← ofCause (Tag.ofValue n.symbol)
  let (bs, g) ← tagBody body p n g
  let es ← ofCause (closing eng.config.voidTags t)
  return (← ofCause (join (bs ++ es)), g)

theorem nonempty_of_expression {s : String} {e : List Char}
    (h : Header.expression? s.toList = some e) : s ≠ "" := by
  rintro rfl
  cases h

/-- Only a text that is not evaluated is empty, and it stands for itself. -/
theorem Embeds.truth_or_empty (h : Embeds eng p n w t w') : n.content.truth = true ∨ t = "" := by
  cases h with
  | literal _ hc =>
      rw [hc]
      by_cases ht : t = ""
      · exact .inr ht
      · exact .inl (by simpa [Value.truth] using ht)
  | value _ hc he =>
      rw [hc]
      exact .inl (by simpa [Value.truth] using nonempty_of_expression he)

/-- A tag without a content puts nothing into its markup, as it does for an empty text. -/
theorem exec_tagContent_eq_ok_iff {cs : List Value} (hescape : eng.config.escape = Escape.markup)
    (hn : IsEmbedded n) :
    exec (tagContent eng p n g) w = (.ok (cs, g'), w') ↔
      ∃ t, Embeds eng p n w t w' ∧ g' = behindContent n g ∧
        cs = if n.content.truth then [.text (Text.escape t)] else [] := by
  rw [tagContent]
  split
  · simp only [exec_bind_eq_ok_iff, Prod.exists, exec_content_eq_ok_iff hescape hn, exec_pure]
    constructor
    · rintro ⟨_, _, _, ⟨t, hembeds, rfl, rfl⟩, ⟨⟩⟩
      exact ⟨t, hembeds, rfl, rfl⟩
    · rintro ⟨t, hembeds, rfl, rfl⟩
      exact ⟨_, _, _, ⟨t, hembeds, rfl, rfl⟩, rfl⟩
  · next hempty =>
      -- An empty text has no equals sign, so it is one that is not evaluated.
      obtain ⟨s, hs, hcases⟩ := hn
      obtain rfl : s = "" := by simpa [hs, Value.truth] using hempty
      have hu : n.unescaped = true := hcases.resolve_right (by decide)
      simp only [exec_pure, embeds_literal_iff hu hs, behindContent, hu, if_true]
      constructor
      · rintro ⟨⟩
        exact ⟨"", ⟨rfl, rfl⟩, rfl, rfl⟩
      · rintro ⟨_, ⟨rfl, rfl⟩, rfl, rfl⟩
        rfl

/-- Pieces are joined around others. -/
theorem join_around {xs cs ys : List Value} {u html : String} (hu : join cs = .ok u) :
    join (xs ++ cs ++ ys) = .ok html ↔
      ∃ a b, join xs = .ok a ∧ join ys = .ok b ∧ html = a ++ u ++ b := by
  have append (vs ws : List Value) (s : String) : join (vs ++ ws) = .ok s ↔
      ∃ a b, join vs = .ok a ∧ join ws = .ok b ∧ s = a ++ b := joinFrom_append_iff
  simp only [append, hu]
  constructor
  · rintro ⟨_, b, ⟨a, _, ha, ⟨⟩, rfl⟩, hb, rfl⟩
    exact ⟨a, b, ha, hb, rfl⟩
  · rintro ⟨a, b, ha, hb, rfl⟩
    exact ⟨_, b, ⟨a, u, ha, rfl, rfl⟩, hb, rfl⟩

theorem exec_front_eq_ok_iff {a : String} :
    exec (front eng p n g) w = (.ok (a, g'), w') ↔
      ∃ s as, Tag.ofValue n.symbol = .ok s ∧
        exec (attributesOf eng p n n.attributes g) w = (.ok (as, g'), w') ∧
        join (opening s ++ attributes as) = .ok a := by
  simp only [front, exec_bind_eq_ok_iff, exec_ofCause_eq_ok_iff, exec_pure, Prod.exists]
  constructor
  · rintro ⟨s, _, ⟨hs, rfl⟩, as, _, _, has, _, _, ⟨ha, rfl⟩, ⟨⟩⟩
    exact ⟨s, as, hs, has, ha⟩
  · rintro ⟨s, as, hs, has, ha⟩
    exact ⟨s, _, ⟨hs, rfl⟩, as, _, _, has, _, _, ⟨ha, rfl⟩, rfl⟩

theorem exec_back_eq_ok_iff {b : String} :
    exec (back eng body p n g) w = (.ok (b, g'), w') ↔
      ∃ s bs es, Tag.ofValue n.symbol = .ok s ∧ exec (tagBody body p n g) w = (.ok (bs, g'), w') ∧
        closing eng.config.voidTags s = .ok es ∧ join (bs ++ es) = .ok b := by
  simp only [back, exec_bind_eq_ok_iff, exec_ofCause_eq_ok_iff, exec_pure, Prod.exists]
  constructor
  · rintro ⟨s, _, ⟨hs, rfl⟩, bs, _, _, hbs, es, _, ⟨hes, rfl⟩, _, _, ⟨hb, rfl⟩, ⟨⟩⟩
    exact ⟨s, bs, es, hs, hbs, hes, hb⟩
  · rintro ⟨s, bs, es, hs, hbs, hes, hb⟩
    exact ⟨s, _, ⟨hs, rfl⟩, bs, _, _, hbs, es, _, ⟨hes, rfl⟩, _, _, ⟨hb, rfl⟩, rfl⟩

/-- The pieces of an escaped content come to it, also where they are left out. -/
theorem join_content {c : Value} {t : String} (h : c.truth = true ∨ t = "") :
    join (if c.truth then [.text (Text.escape t)] else []) = .ok (Text.escape t) := by
  split
  · exact join_cons.mpr ⟨"", rfl, by simp⟩
  · next hc =>
      obtain rfl := h.resolve_left hc
      rfl

/-- The markup of a tag is what stands in front of its content, the content, and what stands behind
it. -/
theorem exec_tagMarkup_eq_ok_iff {html : String} (hescape : eng.config.escape = Escape.markup)
    (hn : IsEmbedded n) :
    exec (tagMarkup eng body p n g) w = (.ok (html, g'), w') ↔
      ∃ a g₁ w₁ t w₂ b, exec (front eng p n g) w = (.ok (a, g₁), w₁) ∧ Embeds eng p n w₁ t w₂ ∧
        exec (back eng body p n (behindContent n g₁)) w₂ = (.ok (b, g'), w') ∧
        html = a ++ Text.escape t ++ b := by
  simp only [tagMarkup, exec_bind_eq_ok_iff, exec_ofCause_eq_ok_iff, exec_pure, Prod.exists,
    exec_tagContent_eq_ok_iff hescape hn, exec_front_eq_ok_iff, exec_back_eq_ok_iff]
  -- All pieces are joined at once, which comes to joining those in front of the content and those
  -- behind it apart.
  constructor
  · rintro ⟨s, _, ⟨hs, rfl⟩, as, g₁, w₁, has, _, _, w₂, ⟨t, hembeds, rfl, rfl⟩, bs, _, _, hbs, es, _,
      ⟨hes, rfl⟩, _, _, ⟨hjoin, rfl⟩, ⟨⟩⟩
    rw [List.append_assoc _ bs, join_around (join_content (hembeds.truth_or_empty))] at hjoin
    obtain ⟨a, b, ha, hb, rfl⟩ := hjoin
    exact ⟨a, g₁, w₁, t, w₂, b, ⟨s, as, hs, has, ha⟩, hembeds, ⟨s, bs, es, hs, hbs, hes, hb⟩, rfl⟩
  · rintro ⟨a, g₁, w₁, t, w₂, b, ⟨s, as, hs, has, ha⟩, hembeds, ⟨s', bs, es, hs', hbs, hes, hb⟩,
      rfl⟩
    obtain rfl := Except.ok.inj (hs.symm.trans hs')
    have hjoin := (join_around (join_content (hembeds.truth_or_empty))).mpr ⟨a, b, ha, hb, rfl⟩
    rw [← List.append_assoc] at hjoin
    exact ⟨s, _, ⟨hs, rfl⟩, as, g₁, w₁, has, _, _, w₂, ⟨t, hembeds, rfl, rfl⟩, bs, _, _, hbs, es, _,
      ⟨hes, rfl⟩, _, _, ⟨hjoin, rfl⟩, rfl⟩

theorem exec_text_eq_ok_iff (hescape : eng.config.escape = Escape.markup) (hn : IsEmbedded n) :
    exec (text eng p n g) w = (.ok (v, g'), w') ↔
      ∃ t, Embeds eng p n w t w' ∧ v = .text (" " ++ Text.escape t) ∧ g' = behindContent n g := by
  simp only [text, exec_bind_eq_ok_iff, exec_ofCause_eq_ok_iff, exec_pure, Prod.exists,
    exec_content_eq_ok_iff hescape hn]
  constructor
  · rintro ⟨_, _, _, ⟨t, hembeds, rfl, rfl⟩, _, _, ⟨⟨⟩, rfl⟩, ⟨⟩⟩
    exact ⟨t, hembeds, rfl, rfl⟩
  · rintro ⟨t, hembeds, rfl, rfl⟩
    exact ⟨_, _, _, ⟨t, hembeds, rfl, rfl⟩, _, _, ⟨rfl, rfl⟩, rfl⟩

/-- **Contents in markup.**  The content of a text node is written behind a blank, and the content of
a tag between the opening tag and the children.  It is written as the text that it stands for,
escaped, and as nothing else, and what is remembered of a tag is the same markup.  An escaped text has
no character that means anything in markup, except ampersands of entities, and it can be read back.
So different texts are written differently. -/
theorem embedded_content (hescape : eng.config.escape = Escape.markup) (hn : IsEmbedded n)
    (g : Group) :
    (∀ w v g' w', exec (text eng p n g) w = (.ok (v, g'), w') ↔
      ∃ t, Embeds eng p n w t w' ∧ v = .text (" " ++ Text.escape t) ∧ g' = behindContent n g) ∧
    (∀ w v g' w', exec (tag eng body p n g) w = (.ok (v, g'), w') ↔
      ∃ a g₁ w₁ t w₂ b w₃, exec (front eng p n g) w = (.ok (a, g₁), w₁) ∧ Embeds eng p n w₁ t w₂ ∧
        exec (back eng body p n (behindContent n g₁)) w₂ = (.ok (b, g'), w₃) ∧
        v = .text (a ++ Text.escape t ++ b) ∧
        w' = keeping eng n (a ++ Text.escape t ++ b) g' w₃) ∧
    ∀ t, IsInert (Text.escape t).toList ∧ decodeOnce (Text.escape t).toList = t.toList ∧
      ∀ u, Text.escape u = Text.escape t → u = t := by
  refine ⟨fun w v g' w' => exec_text_eq_ok_iff hescape hn, fun w v g' w' => ?_, fun t => ?_⟩
  · simp only [exec_tag_eq_ok_iff, exec_tagMarkup_eq_ok_iff hescape hn]
    constructor
    · rintro ⟨_, w₃, ⟨a, g₁, w₁, t, w₂, b, ha, ht, hb, rfl⟩, rfl, rfl⟩
      exact ⟨a, g₁, w₁, t, w₂, b, w₃, ha, ht, hb, rfl, rfl⟩
    · rintro ⟨a, g₁, w₁, t, w₂, b, w₃, ha, ht, hb, rfl, rfl⟩
      exact ⟨_, w₃, ⟨a, g₁, w₁, t, w₂, b, ha, ht, hb, rfl⟩, rfl, rfl⟩
  · have hcode : (Text.escape t).toList = t.toList.flatMap Text.escapeChar := String.toList_ofList
    rw [hcode]
    exact ⟨isInert_escape _, decodeOnce_escape _, fun u => escape_injective⟩

open Samples (engine leaf)

/-- A tag with the value of a name. -/
def greeting : Node :=
  leaf 0 "p" "= v"

/-- A text with an entity in it is read back as it is. -/
theorem embedded_content_entity :
    exec (tag (engine 0) (Render.body (engine 0) 0) (naming (.text "<b> &lt;")) greeting Group.start)
        World.empty =
      (.ok (.text "<p>&lt;b&gt; &amp;lt;</p>", Group.start.dynamic),
        namedWorld (.text "<b> &lt;")) ∧
    decodeOnce "&lt;b&gt; &amp;lt;".toList = "<b> &lt;".toList := by
  have hvalue : Embeds (engine 0) (naming (.text "<b> &lt;")) greeting World.empty "<b> &lt;"
      (namedWorld (.text "<b> &lt;")) :=
    .value (s := "= v") (e := "v".toList) (v := .text "<b> &lt;") rfl rfl (by decide) rfl rfl
  have hcode : Text.escape "<b> &lt;" = "&lt;b&gt; &amp;lt;" := by decide
  have hescape : (engine 0).config.escape = Escape.markup := rfl
  have hgreeting : IsEmbedded greeting := ⟨"= v", rfl, .inr (by decide)⟩
  obtain ⟨-, htag, hread⟩ := embedded_content hescape hgreeting Group.start
  rw [← hcode]
  exact ⟨(htag _ _ _ _).mpr ⟨"<p>", Group.start, _, _, _, "</p>", _, rfl, hvalue, rfl, rfl, rfl⟩,
    (hread _).2.1⟩

end Trellis.Render
