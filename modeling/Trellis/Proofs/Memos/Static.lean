import Trellis.Proofs.Sharing.Census
import Trellis.Proofs.Sharing.Static

/-!
# Proofs — Memos — Static

The markup that does not depend on the scope, as a function of the tree (`Static.node`).  It is
given a base of memos, from which nodes are taken as they are; whatever else an engine remembers on
the way is to be static (`Faithful`).

In such a world rendering does what this function says (`Static.Renders`): a node that has static
markup gives it and leaves its group as it is, whatever is remembered of the nodes below; any other
node makes its group dynamic.
-/

namespace Trellis

open Rendering (exec exec_bind exec_bind_ok exec_bind_error exec_depths_of_succ
  exec_depths_bind_ok Yields)

/-- What an engine takes from a memo. -/
def Engine.taken? (eng : Engine) (m : Memo) : Option Value :=
  if m.owner = some eng.id && eng.config.compact then m.html else none

/-- What an engine takes is its own memo of the node. -/
theorem Engine.exec_remembered? (eng : Engine) (n : Node) (w : World) :
    exec (eng.remembered? n) w = (.ok (eng.taken? (w.memo n.id)), w) := rfl

namespace World

/-- The world without memos. -/
def forget (w : World) : World := { w with memos := [] }

/-- Only the memo that is written changes. -/
theorem memo_setMemo (w : World) (id : Nat) (m : Memo) (j : Nat) :
    (w.setMemo id m).memo j = if j = id then m else w.memo j := by
  unfold World.memo World.setMemo
  rw [List.lookup_cons]
  by_cases h : j = id
  · simp [h]
  · simp [h, beq_eq_false_iff_ne.mpr h]

end World

theorem ok_of_toOption {ε α : Type} {r : Except ε α} {a : α} (h : r.toOption = some a) :
    r = .ok a := by
  cases r with
  | error e => cases h
  | ok b => rw [Option.some.inj h]

/-! ### Static markup -/

namespace Static

/-- An attribute whose value is no expression; it may be dropped. -/
def attributeOf (key value : Value) : Option (Option String) :=
  match value with
  | .bool _ => some (some (Markup.flag key.plain))
  | v => if v.truth then none else some (Markup.emptyAttribute? key.plain)

/-- Attributes whose values are no expressions, without those that are dropped. -/
def attributes : List (Value × Value) → Option (List String)
  | [] => some []
  | (k, v) :: as =>
    (attributeOf k v).bind fun a => (attributes as).bind fun bs => some (a.toList ++ bs)

/-- A content that is no expression. -/
def content (eng : Engine) (n : Node) : Option Value :=
  if n.unescaped then (eng.config.escape n.content).toOption
  else (Markup.searchable n.content).toOption.bind fun s =>
    match Header.expression? s with
    | none => some n.content
    | some _ => none

/-- The content of a tag, if it has any. -/
def tagContent (eng : Engine) (n : Node) : Option (List Value) :=
  if n.content.truth then (content eng n).bind fun v => some [v] else some []

/-- The children of a tag, if it has any. -/
def tagBody (n : Node) (inner : Option (List Value)) : Option (List Value) :=
  if n.children.isEmpty then some []
  else (inner.bind fun vs => (Markup.join vs).toOption).bind fun s => some [.text s]

/-- A tag with given pieces of its children. -/
def tag (eng : Engine) (n : Node) (inner : Option (List Value)) : Option String :=
  (Tag.ofValue n.symbol).toOption.bind fun t =>
  (attributes n.attributes).bind fun as =>
  (tagContent eng n).bind fun cs =>
  (tagBody n inner).bind fun bs =>
  (Markup.closing eng.config.voidTags t).toOption.bind fun es =>
  (Markup.join (Markup.opening t ++ Markup.attributes as ++ cs ++ bs ++ es)).toOption

/-- A node in its role, with given pieces of its children. -/
def inRole (eng : Engine) (n : Node) (inner : Option (List Value)) : Role → Option Value
  | .alternative => some (.text "")
  | .comment => (Markup.comment n.content).toOption
  | .text => (content eng n).bind fun v => (Markup.appendTo " " v).toOption
  | .tag => (tag eng n inner).bind fun html => some (.text html)
  | _ => none

/-- A node that no condition awaits, with given pieces of its children. -/
def own (eng : Engine) (base : Nat → Memo) (n : Node) (inner : Option (List Value)) :
    Option Value :=
  if Role.isAlternative n.symbol then some (.text "")
  else
    match eng.taken? (base n.id) with
    | some html => some html
    | none => (Role.ofValue n.symbol).toOption.bind (inRole eng n inner)

mutual

/-- The static markup of a node, if it has any. -/
def node (eng : Engine) (base : Nat → Memo) : Node → Option Value
  | ⟨id, symbol, content, attributes, children, unescaped, position⟩ =>
    own eng base ⟨id, symbol, content, attributes, children, unescaped, position⟩
      (nodes eng base children)
termination_by structural n => n

/-- The static markup of nodes one after the other, if all of them have any. -/
def nodes (eng : Engine) (base : Nat → Memo) : List Node → Option (List Value)
  | [] => some []
  | n :: ns => (node eng base n).bind fun v => (nodes eng base ns).bind fun vs => some (v :: vs)
termination_by structural ns => ns

end

/-- What a node gives is told by itself and what its children give. -/
theorem node_eq (eng : Engine) (base : Nat → Memo) (n : Node) :
    node eng base n = own eng base n (nodes eng base n.children) := by
  obtain ⟨id, symbol, content, attributes, children, unescaped, position⟩ := n
  rw [node]

end Static

/-! ### Worlds -/

/-- What an engine has remembered under an identity, beyond the base: the static markup of a tag. -/
def Made (eng : Engine) (base : Nat → Memo) (S : Set Node) (id : Nat) (m : Memo) : Prop :=
  eng.taken? (base id) = none ∧ ∃ n ∈ S, n.id = id ∧ Role.ofValue n.symbol = .ok .tag ∧
    ∃ html, Static.node eng base n = some html ∧ m = ⟨some html, some eng.id⟩

/-- A memo that is made of nodes in use is made of more of them. -/
theorem Made.mono {eng : Engine} {base : Nat → Memo} {S T : Set Node} (hST : S ⊆ T) {id : Nat}
    {m : Memo} (h : Made eng base S id m) : Made eng base T id m := by
  obtain ⟨hb, n, hn, h⟩ := h
  exact ⟨hb, n, hST hn, h⟩

/-- The nodes are in use, and what is remembered of them is the base or static markup. -/
structure Faithful (eng : Engine) (base : Nat → Memo) (S : Set Node) (w : World) : Prop where
  census : Census S w.nextNode
  memos : ∀ id, w.memo id = base id ∨ Made eng base S id (w.memo id)

namespace Faithful

variable {eng : Engine} {base : Nat → Memo} {S : Set Node} {w : World}

/-- What is taken of a node in use is in the base or its static markup. -/
theorem taken (h : Faithful eng base S w) {n : Node} (hn : n ∈ S) {html : Value}
    (ht : eng.taken? (w.memo n.id) = some html) :
    eng.taken? (base n.id) = some html ∨
      eng.taken? (base n.id) = none ∧ Role.ofValue n.symbol = .ok .tag ∧
        Static.node eng base n = some html := by
  rcases h.memos n.id with hb | ⟨hb, m, hm, hid, hr, html', hs, he⟩
  · exact .inl (hb ▸ ht)
  · obtain rfl := h.census.single m hm n hn hid
    rw [he, Engine.taken?] at ht
    split at ht
    · obtain rfl : html' = html := Option.some.inj ht
      exact .inr ⟨hb, hr, hs⟩
    · cases ht

/-- Wherever it has come from, what is taken of a node in use is its static markup, unless the node
is an alternative, of which nothing is taken. -/
theorem node_of_taken (h : Faithful eng base S w) {n : Node} (hn : n ∈ S)
    (ha : Role.isAlternative n.symbol = false) {html : Value}
    (ht : eng.taken? (w.memo n.id) = some html) : Static.node eng base n = some html := by
  rcases h.taken hn ht with hb | ⟨-, -, hs⟩
  · rw [Static.node_eq, Static.own, ha, hb]
    rfl
  · exact hs

/-- What is not taken of a node is not in the base. -/
theorem base_none (h : Faithful eng base S w) {id : Nat} (ht : eng.taken? (w.memo id) = none) :
    eng.taken? (base id) = none := by
  rcases h.memos id with hb | ⟨hb, -⟩
  · exact hb ▸ ht
  · exact hb

/-- The engine remembers static markup. -/
theorem setMemo (h : Faithful eng base S w) {n : Node} (hn : n ∈ S) {html : Value}
    (hb : eng.taken? (base n.id) = none) (hr : Role.ofValue n.symbol = .ok .tag)
    (hs : Static.node eng base n = some html) :
    Faithful eng base S (w.setMemo n.id ⟨some html, some eng.id⟩) := by
  refine ⟨h.census, fun id => ?_⟩
  rw [World.memo_setMemo]
  split
  · next he => exact .inr ⟨he ▸ hb, n, hn, he.symm, hr, html, hs, rfl⟩
  · exact h.memos id

end Faithful

/-! ### Renderings at all depths -/

/-- At all depths that are large enough a computation ends in `o`, and at the others it does or runs
out of steps. -/
def Settles {α : Type} (x : Nat → Rendering α) (w : World) (o : Except Fault α × World) : Prop :=
  (∃ least, ∀ depth ≥ least, exec (x depth) w = o) ∧
  ∀ depth, (exec (x depth) w).1 = .error .exhausted ∨ exec (x depth) w = o

namespace Settles

variable {α β : Type}

/-- What is done at every depth is settled. -/
theorem of_exec {x : Rendering α} {w : World} {o : Except Fault α × World} (h : exec x w = o) :
    Settles (fun _ => x) w o :=
  ⟨⟨0, fun _ _ => h⟩, fun _ => .inr h⟩

/-- Computations in a row settle if each does. -/
theorem bind {x : Nat → Rendering α} {f : Nat → α → Rendering β} {w w' : World} {a : α}
    {o : Except Fault β × World} (hx : Settles x w (.ok a, w'))
    (hf : Settles (fun depth => f depth a) w' o) :
    Settles (fun depth => x depth >>= f depth) w o := by
  refine ⟨exec_depths_bind_ok hx.1 hf.1, fun depth => ?_⟩
  rcases hx.2 depth with h | h
  · left
    rw [exec_bind]
    split
    · next a' w₁ h₁ =>
      rw [h₁] at h
      cases h
    · next e w₁ h₁ =>
      rw [h₁] at h
      obtain rfl : e = .exhausted := Except.error.inj h
      rfl
  · rw [exec_bind_ok h]
    exact hf.2 depth

/-- One group deeper. -/
theorem of_succ {x : Nat → Rendering α} {w : World} {o : Except Fault α × World}
    (h₀ : (exec (x 0) w).1 = .error .exhausted) (h : Settles (fun depth => x (depth + 1)) w o) :
    Settles x w o := by
  refine ⟨exec_depths_of_succ h.1, fun depth => ?_⟩
  cases depth with
  | zero => exact .inl h₀
  | succ d => exact h.2 d

end Settles

namespace Static

variable (eng : Engine) (base : Nat → Memo) (S : Set Node)

/-- A step in a group does what `o` says: if that is static, it comes to it, leaves the group as it
is, and changes nothing but what is remembered; else it makes the group dynamic. -/
structure Renders {α : Type} (x : Nat → Group → Rendering (α × Group)) (o : Option α) : Prop where
  keeps : ∀ depth g, g.isDynamic = true → Yields (fun r => r.2.isDynamic = true) (x depth g)
  static : ∀ a, o = some a → ∀ g w, g.pending = none → Faithful eng base S w →
    ∃ w', Faithful eng base S w' ∧ w'.forget = w.forget ∧
      Settles (fun depth => x depth g) w (.ok (a, g), w')
  dynamic : o = none → ∀ depth g w r w', g.pending = none → Faithful eng base S w →
    exec (x depth g) w = (.ok r, w') → r.2.isDynamic = true

variable {eng base S} {α β : Type}

namespace Renders

theorem pure (a : α) : Renders eng base S (fun _ g => Pure.pure (a, g)) (some a) := by
  refine ⟨fun _ g hg => Yields.pure hg, fun b hb g w _ hw => ?_, fun hn => ?_⟩
  · obtain rfl := Option.some.inj hb
    exact ⟨w, hw, rfl, Settles.of_exec rfl⟩
  · cases hn

/-- What always makes the group dynamic. -/
theorem of_dynamic {x : Nat → Group → Rendering (α × Group)}
    (h : ∀ depth g, Yields (fun r => r.2.isDynamic = true) (x depth g)) :
    Renders eng base S x none := by
  refine ⟨fun depth g _ => h depth g, fun a ha => ?_, fun _ depth g w r w' _ _ he => ?_⟩
  · cases ha
  · exact h depth g w r w' he

/-- An outcome that depends on nothing, and what follows. -/
theorem ofCause_bind (r : Except Cause β) {f : β → Nat → Group → Rendering (α × Group)}
    {o : β → Option α} (hf : ∀ b, r = .ok b → Renders eng base S (f b) (o b)) :
    Renders eng base S (fun depth g => Rendering.ofCause r >>= fun b => f b depth g)
      (r.toOption.bind o) := by
  cases r with
  | error c =>
    refine ⟨fun depth g _ w a w' he => ?_, fun a ha => ?_, fun _ depth g w r w' _ _ he => ?_⟩
    · cases he
    · cases ha
    · cases he
  | ok b => exact hf b rfl

/-- The outcome of an operation is known beforehand. -/
theorem ofCause (r : Except Cause α) :
    Renders eng base S (fun _ g => do return (← Rendering.ofCause r, g)) r.toOption := by
  have h : Renders eng base S (fun _ g => Rendering.ofCause r >>= fun a => Pure.pure (a, g))
      (r.toOption.bind some) := ofCause_bind r fun a _ => pure a
  simpa using h

/-- One after the other. -/
theorem bind {x : Nat → Group → Rendering (α × Group)} {o : Option α}
    {f : Nat → α × Group → Rendering (β × Group)} {q : α → Option β} (hx : Renders eng base S x o)
    (hf : ∀ a, Renders eng base S (fun depth g => f depth (a, g)) (q a)) :
    Renders eng base S (fun depth g => x depth g >>= f depth) (o.bind q) := by
  refine ⟨fun depth g hg => ?_, fun b hb g w hg hw => ?_, fun hn depth g w r w' hg hw he => ?_⟩
  · exact (hx.keeps depth g hg).bind_of fun r hr => (hf r.1).keeps depth r.2 hr
  · obtain ⟨a, ha, hb⟩ := Option.bind_eq_some_iff.mp hb
    obtain ⟨w₁, hw₁, hforget₁, hs₁⟩ := hx.static a ha g w hg hw
    obtain ⟨w₂, hw₂, hforget₂, hs₂⟩ := (hf a).static b hb g w₁ hg hw₁
    exact ⟨w₂, hw₂, hforget₂.trans hforget₁, hs₁.bind hs₂⟩
  · rw [exec_bind] at he
    split at he
    case h_2 => simp at he
    case h_1 s w₁ h₁ =>
      cases ho : o with
      | none =>
        have hd := hx.dynamic ho depth g w s w₁ hg hw h₁
        exact (hf s.1).keeps depth s.2 hd w₁ r w' he
      | some a =>
        obtain ⟨w₂, hw₂, -, -, hs⟩ := hx.static a ho g w hg hw
        rw [ho, Option.bind_some] at hn
        rcases hs depth with h | h
        · rw [h₁] at h
          cases h
        · rw [h₁] at h
          cases h
          exact (hf a).dynamic hn depth g w₁ r w' hg hw₂ he

/-- What is not dynamic afterwards is static. -/
theorem eq_some {x : Nat → Group → Rendering (α × Group)} {o : Option α}
    (h : Renders eng base S x o) {depth : Nat} {g : Group} {w w' : World} {r : α × Group}
    (hg : g.pending = none) (hw : Faithful eng base S w)
    (he : exec (x depth g) w = (.ok r, w')) (hd : r.2.isDynamic = false) : o = some r.1 := by
  cases ho : o with
  | none =>
    rw [h.dynamic ho depth g w r w' hg hw he] at hd
    cases hd
  | some a =>
    obtain ⟨w₁, -, -, hs⟩ := h.static a ho g w hg hw
    rcases hs.2 depth with hx | hx
    · rw [he] at hx
      cases hx
    · rw [he] at hx
      cases hx
      rfl

end Renders

/-! ### Content and attributes -/

section Steps

variable {n : Node} (p : Place)

/-- The content is rendered as it is known, or depends on the scope. -/
theorem content_renders :
    Renders eng base S (fun _ => Render.content eng p n) (content eng n) := by
  show Renders eng base S (fun _ g => Render.content eng p n g) (content eng n)
  unfold Render.content content Engine.escape
  split
  · exact Renders.ofCause _
  · refine Renders.ofCause_bind _ fun s _ => ?_
    cases Header.expression? s with
    | none => exact Renders.pure n.content
    | some e =>
      exact Renders.of_dynamic fun _ g =>
        Yields.bind fun v => Yields.bind fun t => Yields.bind fun h => Yields.pure rfl

/-- So is a text, with a blank in front. -/
theorem text_renders : Renders eng base S (fun _ => Render.text eng p n)
    ((content eng n).bind fun v => (Markup.appendTo " " v).toOption) :=
  (content_renders p).bind fun _ => Renders.ofCause _

/-- A comment is known from its content. -/
theorem comment_renders :
    Renders eng base S (fun _ => Render.comment n) (Markup.comment n.content).toOption :=
  Renders.ofCause _

/-- An attribute is rendered as it is known. -/
theorem attributeOf_renders (k v : Value) :
    Renders eng base S (fun _ => Render.attributeOf eng p n k v) (attributeOf k v) := by
  show Renders eng base S (fun _ g => Render.attributeOf eng p n k v g) _
  unfold Render.attributeOf
  split
  · exact Renders.pure _
  · next hv =>
    have ho : attributeOf k v =
        if v.truth then none else some (Markup.emptyAttribute? k.plain) := by
      unfold attributeOf
      split
      · next b => exact absurd rfl (hv b)
      · rfl
    rw [ho]
    cases v.truth with
    | false => exact Renders.pure _
    | true =>
      refine Renders.of_dynamic fun _ g => Yields.bind fun u => Yields.bind fun t => ?_
      split
      · exact Yields.pure rfl
      · exact Yields.bind fun s => Yields.pure rfl

/-- So are attributes in a row. -/
theorem attributesOf_renders (as : List (Value × Value)) :
    Renders eng base S (fun _ => Render.attributesOf eng p n as) (attributes as) := by
  induction as with
  | nil => exact Renders.pure []
  | cons a as ih =>
    exact (attributeOf_renders p a.1 a.2).bind fun s => ih.bind fun ss => Renders.pure _

/-- So is the content of a tag. -/
theorem tagContent_renders :
    Renders eng base S (fun _ => Render.tagContent eng p n) (tagContent eng n) := by
  show Renders eng base S (fun _ g => Render.tagContent eng p n g) _
  unfold Render.tagContent tagContent
  split
  · exact (content_renders p).bind fun v => Renders.pure [v]
  · exact Renders.pure []

end Steps

/-! ### Bodies -/

/-- A group of its own does what `o` says: if that is static, it comes to it and changes nothing but
what is remembered; else it is dynamic. -/
structure RendersGroup (eng : Engine) (base : Nat → Memo) (S : Set Node)
    (x : Nat → Rendering (String × Bool)) (o : Option String) : Prop where
  static : ∀ s, o = some s → ∀ w, Faithful eng base S w →
    ∃ w', Faithful eng base S w' ∧ w'.forget = w.forget ∧ Settles x w (.ok (s, false), w')
  dynamic : o = none → ∀ depth w s d w', Faithful eng base S w →
    exec (x depth) w = (.ok (s, d), w') → d = true

/-- A group is rendered as its siblings are known. -/
theorem group_renders {ns : List Node} {p : Place} {o : Option (List Value)}
    (h : Renders eng base S
      (fun depth => Render.nodes eng (Render.body eng depth) depth p ns) o) :
    RendersGroup eng base S (fun depth => Render.group eng (Render.body eng depth) depth p ns)
      (o.bind fun vs => (Markup.join vs).toOption) := by
  refine ⟨fun s hs w hw => ?_, fun hn depth w s d w' hw he => ?_⟩
  · obtain ⟨vs, ho, hj⟩ := Option.bind_eq_some_iff.mp hs
    obtain ⟨w', hw', hf, hs⟩ := h.static vs ho Group.start w rfl hw
    refine ⟨w', hw', hf, ?_⟩
    simp only [Render.group]
    refine hs.bind (Settles.of_exec ?_)
    cases hr : Markup.join vs with
    | error c =>
      rw [hr] at hj
      cases hj
    | ok t =>
      rw [hr] at hj
      obtain rfl := Option.some.inj hj
      rfl
  · unfold Render.group at he
    rw [exec_bind] at he
    split at he
    case h_2 => cases he
    case h_1 r w₁ h₁ =>
      obtain ⟨vs, g⟩ := r
      cases hp : g.pending with
      | some m =>
        simp only [hp] at he
        cases he
      | none =>
        cases hj : Markup.join vs with
        | error c =>
          simp only [hp, hj, exec_bind, Rendering.exec_ofCause, Except.mapError] at he
          cases he
        | ok t =>
          simp only [hp, hj, exec_bind, Rendering.exec_ofCause, Except.mapError,
            Rendering.exec_pure, Prod.mk.injEq, Except.ok.injEq] at he
          obtain ⟨⟨-, rfl⟩, -⟩ := he
          cases ho : o with
          | none => exact h.dynamic ho depth Group.start w (vs, g) w₁ rfl hw h₁
          | some vs' =>
            -- the pieces are the static ones, and these do not join
            obtain ⟨w₂, -, -, hs⟩ := h.static vs' ho Group.start w rfl hw
            rcases hs.2 depth with he | he
            · rw [h₁] at he
              cases he
            · rw [h₁] at he
              cases he
              rw [ho, Option.bind_some, hj] at hn
              cases hn

/-- So is the body of a node. -/
theorem body_renders {n : Node} {p : Place} {o : Option (List Value)}
    (h : Renders eng base S
      (fun depth => Render.nodes eng (Render.body eng depth) depth p n.children) o) :
    RendersGroup eng base S (fun depth => Render.body eng depth n p)
      (o.bind fun vs => (Markup.join vs).toOption) := by
  have hg := group_renders h
  refine ⟨fun s hs w hw => ?_, fun hn depth w s d w' hw he => ?_⟩
  · obtain ⟨w', hw', hf, hs⟩ := hg.static s hs w hw
    exact ⟨w', hw', hf, Settles.of_succ rfl hs⟩
  · cases depth with
    | zero => cases he
    | succ depth => exact hg.dynamic hn depth w s d w' hw he

/-- A dynamic group stays so behind what stands inside a tag. -/
theorem tagBody_keeps (body : Body) (n : Node) (p : Place) {g : Group} (hg : g.isDynamic = true) :
    Yields (fun r => r.2.isDynamic = true) (Render.tagBody body p n g) := by
  unfold Render.tagBody
  split
  · exact Yields.pure hg
  · refine Yields.bind fun r => Yields.pure ?_
    split
    · rfl
    · exact hg

/-- What stands inside a tag is rendered as it is known. -/
theorem tagBody_renders {n : Node} {p : Place} {o : Option (List Value)}
    (h : Renders eng base S
      (fun depth => Render.nodes eng (Render.body eng depth) depth p n.children) o) :
    Renders eng base S (fun depth => Render.tagBody (Render.body eng depth) p n) (tagBody n o) := by
  show Renders eng base S (fun depth g => Render.tagBody (Render.body eng depth) p n g) _
  unfold Render.tagBody tagBody
  split
  · exact Renders.pure []
  · have hb := body_renders h
    refine ⟨fun depth g hg => ?_, fun a ha g w _ hw => ?_, fun hn depth g w r w' _ hw he => ?_⟩
    · have hk := tagBody_keeps (Render.body eng depth) n p hg
      rwa [Render.tagBody, if_neg ‹_›] at hk
    · obtain ⟨s, ho, ha⟩ := Option.bind_eq_some_iff.mp ha
      obtain rfl := Option.some.inj ha
      obtain ⟨w', hw', hf, hs⟩ := hb.static s ho w hw
      exact ⟨w', hw', hf, hs.bind (Settles.of_exec rfl)⟩
    · rw [exec_bind] at he
      split at he
      case h_2 => cases he
      case h_1 b w₁ h₁ =>
        -- a body without static markup has made its group dynamic, and so this one
        have hd : b.2 = true := by
          refine hb.dynamic ?_ depth w b.1 b.2 w₁ hw h₁
          cases ho : o.bind fun vs => (Markup.join vs).toOption with
          | none => rfl
          | some s =>
            rw [ho] at hn
            cases hn
        cases he
        simp [hd, Group.dynamic]

/-- So is the markup of a tag. -/
theorem tagMarkup_renders {n : Node} {p : Place} {o : Option (List Value)}
    (h : Renders eng base S
      (fun depth => Render.nodes eng (Render.body eng depth) depth p n.children) o) :
    Renders eng base S (fun depth => Render.tagMarkup eng (Render.body eng depth) p n)
      (tag eng n o) := by
  refine Renders.ofCause_bind _ fun t _ => ?_
  refine (attributesOf_renders p _).bind fun as => ?_
  refine (tagContent_renders p).bind fun cs => ?_
  refine (tagBody_renders h).bind fun bs => ?_
  refine Renders.ofCause_bind _ fun es _ => ?_
  exact Renders.ofCause _

/-! ### Nodes -/

/-- A node in another role is no alternative. -/
theorem isAlternative_of_role {v : Value} {r : Role} (h : Role.ofValue v = .ok r)
    (hr : r ≠ .alternative) : Role.isAlternative v = false := by
  cases v with
  | text s =>
    obtain rfl := Except.ok.inj h
    simp [Role.isAlternative, hr]
  | _ => rfl

/-- The static markup of a tag that is not taken from the base. -/
theorem node_of_tag {n : Node} (hr : Role.ofValue n.symbol = .ok .tag)
    (hb : eng.taken? (base n.id) = none) :
    node eng base n = inRole eng n (nodes eng base n.children) .tag := by
  rw [node_eq, own, isAlternative_of_role hr (by simp), hb, hr]
  rfl

/-- The end of a tag. -/
theorem exec_remember (n : Node) (html : String) (g : Group) (w : World) :
    exec (do
      if eng.config.compact && !g.isDynamic then eng.remember n html
      return (Value.text html, g)) w =
      (.ok (.text html, g),
        if eng.config.compact && !g.isDynamic then
          w.setMemo n.id ⟨some (.text html), some eng.id⟩ else w) := by
  cases eng.config.compact && !g.isDynamic <;> rfl

/-- A dynamic group stays so behind a tag. -/
theorem tag_keeps (body : Body) (n : Node) (p : Place) {g : Group} (hg : g.isDynamic = true) :
    Yields (fun r => r.2.isDynamic = true) (Render.tag eng body p n g) := by
  refine Yields.bind_of (Q := fun r => r.2.isDynamic = true) ?_ fun r hr w a w' he => ?_
  · refine Yields.bind fun t => ?_
    have has := @attributesOf_renders eng (fun _ => ⟨none, none⟩) ∅ n p n.attributes
    have hcs := @tagContent_renders eng (fun _ => ⟨none, none⟩) ∅ n p
    refine (has.keeps 0 g hg).bind_of fun as hg => (hcs.keeps 0 _ hg).bind_of fun cs hg => ?_
    refine (tagBody_keeps body n p hg).bind_of fun bs hg => ?_
    exact Yields.bind fun es => Yields.bind fun html => Yields.pure hg
  · rw [exec_remember] at he
    cases he
    exact hr

/-- A tag does what its static markup says, and is remembered only if it has any. -/
theorem tag_renders {n : Node} (hn : n ∈ S) (p : Place) (hr : Role.ofValue n.symbol = .ok .tag)
    (hb : eng.taken? (base n.id) = none)
    (h : Renders eng base S
      (fun depth => Render.nodes eng (Render.body eng depth) depth p n.children)
      (nodes eng base n.children)) :
    Renders eng base S (fun depth => Render.tag eng (Render.body eng depth) p n)
      (inRole eng n (nodes eng base n.children) .tag) := by
  have hm := tagMarkup_renders h
  refine ⟨fun depth g hg => tag_keeps _ n p hg, fun a ha g w hg hw => ?_,
    fun ho depth g w r w' hg hw he => ?_⟩
  · obtain ⟨html, ho, ha⟩ := Option.bind_eq_some_iff.mp ha
    obtain rfl := Option.some.inj ha
    obtain ⟨w₁, hw₁, hf, hs⟩ := hm.static html ho g w hg hw
    refine ⟨_, ?_, ?_, hs.bind (Settles.of_exec (exec_remember n html g w₁))⟩
    · split
      · refine hw₁.setMemo hn hb hr ?_
        rw [node_of_tag hr hb, inRole, ho, Option.bind_some]
      · exact hw₁
    · split
      · exact hf
      · exact hf
  · -- remembering does not change the group, which the markup has made dynamic
    unfold Render.tag at he
    rw [exec_bind] at he
    split at he
    case h_2 => cases he
    case h_1 r₁ w₁ h₁ =>
      have hd : r₁.2.isDynamic = true := by
        refine hm.dynamic ?_ depth g w r₁ w₁ hg hw h₁
        cases ht : tag eng n (nodes eng base n.children) with
        | none => rfl
        | some html =>
          rw [inRole, ht] at ho
          cases ho
      have he := (exec_remember n r₁.1 r₁.2 w₁).symm.trans he
      cases he
      exact hd

/-- An alternative that nothing awaits is rendered as nothing. -/
theorem alternative_renders (n : Node) (p : Place) :
    Renders eng base S (fun depth => Render.alternative eng (Render.body eng depth) p n)
      (some (.text "")) := by
  refine ⟨fun depth g hg w r w' he => ?_, fun a ha g w hg hw => ?_, fun hn => ?_⟩
  · exact (@Render.alternative_steady eng n n p p _ g w r.1 r.2 w' he).1 hg
  · obtain rfl := Option.some.inj ha
    refine ⟨w, hw, rfl, ⟨0, fun depth _ => ?_⟩, fun depth => .inr ?_⟩
    · simp [Render.alternative, hg]
    · simp [Render.alternative, hg]
  · cases hn

/-- A node in any role is rendered as it is known. -/
theorem inRole_renders {n : Node} (hn : n ∈ S) (p : Place) {r : Role}
    (hr : r = .tag → Role.ofValue n.symbol = .ok .tag ∧ eng.taken? (base n.id) = none)
    (h : Renders eng base S
      (fun depth => Render.nodes eng (Render.body eng depth) depth p n.children)
      (nodes eng base n.children)) :
    Renders eng base S
      (fun depth g => Render.inRole eng (Render.body eng depth) depth p n g r)
      (inRole eng n (nodes eng base n.children) r) := by
  cases r with
  | condition => exact Renders.of_dynamic fun _ g => Render.condition_dynamic _ p g
  | alternative => exact alternative_renders n p
  | whileLoop =>
    exact Renders.of_dynamic fun depth g => (Render.whileLoop_marks _ p g depth).dynamic
  | forLoop => exact Renders.of_dynamic fun depth g => (Render.forLoop_marks _ p g depth).dynamic
  | each => exact Renders.of_dynamic fun _ g => Yields.throw _
  | comment => exact comment_renders
  | inclusion => exact Renders.of_dynamic fun _ g => (Render.inclusion_marks _ p g).dynamic
  | text => exact text_renders p
  | inlineCode => exact Renders.of_dynamic fun _ g => Yields.throw _
  | plugin name => exact Renders.of_dynamic fun _ g => (Render.plugin_marks _ p g name).dynamic
  | call name => exact Renders.of_dynamic fun _ g => (Render.call_marks _ p g name).dynamic
  | definition name =>
    exact Renders.of_dynamic fun _ g => (Render.definition_marks _ g name).dynamic
  | tag => exact tag_renders hn p (hr rfl).1 (hr rfl).2 h

/-- A node that is taken from its memo. -/
theorem exec_node_taken {n : Node} (ha : Role.isAlternative n.symbol = false) {g : Group}
    (hg : g.pending = none) {w : World} {html : Value}
    (ht : eng.taken? (w.memo n.id) = some html) (body : Body) (limit : Nat) (p : Place) :
    exec (Render.node eng body limit p n g) w = (.ok (html, g), w) := by
  simp only [Render.node, ha, hg, Option.isSome_none, Bool.false_eq_true, if_false]
  rw [exec_bind_ok (eng.exec_remembered? n w), ht]
  rfl

/-- A node that is not. -/
theorem exec_node_missed {n : Node} (ha : Role.isAlternative n.symbol = false) {g : Group}
    (hg : g.pending = none) {w : World} (ht : eng.taken? (w.memo n.id) = none) (body : Body)
    (limit : Nat) (p : Place) :
    exec (Render.node eng body limit p n g) w =
      exec (Rendering.ofCause (Role.ofValue n.symbol) >>= fun r =>
        Render.inRole eng body limit p n g r) w := by
  simp only [Render.node, ha, hg, Option.isSome_none, Bool.false_eq_true, if_false]
  rw [exec_bind_ok (eng.exec_remembered? n w), ht]

section

variable {n : Node} (hn : n ∈ S) (p : Place)
  (h : Renders eng base S
    (fun depth => Render.nodes eng (Render.body eng depth) depth p n.children)
    (nodes eng base n.children))
include hn h

/-- A node that is not taken from the base is rendered in its role. -/
theorem missed_renders (ha : Role.isAlternative n.symbol = false)
    (hb : eng.taken? (base n.id) = none) :
    Renders eng base S
      (fun depth g => Rendering.ofCause (Role.ofValue n.symbol) >>= fun r =>
        Render.inRole eng (Render.body eng depth) depth p n g r)
      (node eng base n) := by
  rw [node_eq, own, ha, hb]
  exact Renders.ofCause_bind _ fun r hr => inRole_renders hn p (fun ht => ⟨ht ▸ hr, hb⟩) h

/-- A node leaves a group dynamic that is. -/
theorem node_keeps (ha : Role.isAlternative n.symbol = false) (depth : Nat) {g : Group}
    (hg : g.isDynamic = true) :
    Yields (fun r => r.2.isDynamic = true)
      (Render.node eng (Render.body eng depth) depth p n g) := by
  unfold Render.node
  simp only [ha, Bool.false_eq_true, if_false]
  split
  · exact Yields.pure hg
  · refine Yields.bind fun m => ?_
    cases m with
    | some html => exact Yields.pure hg
    | none =>
      refine Yields.bind fun r => ?_
      by_cases hr : r = .tag
      · subst hr
        exact tag_keeps _ n p hg
      · exact (inRole_renders (r := r) hn p (fun ht => absurd ht hr) h).keeps depth g hg

/-- A node in use does what its static markup says, given that its children do. -/
theorem own_renders :
    Renders eng base S (fun depth => Render.node eng (Render.body eng depth) depth p n)
      (node eng base n) := by
  cases ha : Role.isAlternative n.symbol with
  | true =>
    have hx : (fun depth => Render.node eng (Render.body eng depth) depth p n) =
        fun depth => Render.alternative eng (Render.body eng depth) p n := by
      funext depth g
      simp [Render.node, ha]
    rw [hx, node_eq, own, ha]
    exact alternative_renders n p
  | false =>
    refine ⟨fun depth g hg => node_keeps hn p h ha depth hg, fun a ho g w hg hw => ?_,
      fun ho depth g w r w' hg hw he => ?_⟩
    · -- what is taken is the static markup; without any, the role of the node decides
      cases ht : eng.taken? (w.memo n.id) with
      | some html =>
        obtain rfl : html = a := Option.some.inj ((hw.node_of_taken hn ha ht).symm.trans ho)
        exact ⟨w, hw, rfl, ⟨0, fun depth _ => exec_node_taken ha hg ht _ _ p⟩,
          fun depth => .inr (exec_node_taken ha hg ht _ _ p)⟩
      | none =>
        have hrole := missed_renders hn p h ha (hw.base_none ht)
        obtain ⟨w', hw', hf, hs⟩ := hrole.static a ho g w hg hw
        refine ⟨w', hw', hf, ?_⟩
        simpa only [Settles, exec_node_missed ha hg ht] using hs
    · cases ht : eng.taken? (w.memo n.id) with
      | some html => cases (hw.node_of_taken hn ha ht).symm.trans ho
      | none =>
        rw [exec_node_missed ha hg ht] at he
        exact (missed_renders hn p h ha (hw.base_none ht)).dynamic ho depth g w r w' hg hw he

end

mutual

/-- **Static markup is rendered.**  By induction on the tree. -/
theorem node_renders (hS : ∀ n ∈ S, ∀ c ∈ n.children, c ∈ S) (p : Place) :
    (n : Node) → n ∈ S →
      Renders eng base S (fun depth => Render.node eng (Render.body eng depth) depth p n)
        (node eng base n)
  | ⟨_, _, _, _, children, _, _⟩, hn =>
    own_renders hn p (nodes_renders hS p children (hS _ hn))
termination_by structural n => n

/-- The same for nodes one after the other. -/
theorem nodes_renders (hS : ∀ n ∈ S, ∀ c ∈ n.children, c ∈ S) (p : Place) :
    (ns : List Node) → (∀ n ∈ ns, n ∈ S) →
      Renders eng base S (fun depth => Render.nodes eng (Render.body eng depth) depth p ns)
        (nodes eng base ns)
  | [], _ => Renders.pure []
  | n :: ns, hns =>
    (node_renders hS p n (hns n List.mem_cons_self)).bind fun v =>
      (nodes_renders hS p ns fun m hm => hns m (List.mem_cons_of_mem n hm)).bind fun vs =>
        Renders.pure (v :: vs)
termination_by structural ns => ns

end

end Static
end Trellis
