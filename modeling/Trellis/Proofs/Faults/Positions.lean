import Trellis.Proofs.Faults.Blame
import Trellis.Proofs.Faults.Conversions
import Trellis.Proofs.Faults.Expressions
import Trellis.Proofs.Groups.Concatenation
import Trellis.Proofs.Interpretation.Throughout
import Trellis.Samples

/-!
# Proofs — Faults — Positions

Where the errors of a rendering are (`Engine.misuse_positioned`).  A rendering that fails by a type,
a lookup, an attribute or a name fails with a complaint at the position of the node that was being
rendered, with two exceptions.  The collection of a loop is gone through, and the value of an
attribute is serialized, outside of the expression that they come from: what has no items, and what
has a key that cannot be serialized, fails without a position.

`Blaming.Ends` says of a computation that it keeps to tame worlds and what its failures satisfy.
There is one lemma for each construct: a node bears its own failures (`Blaming.node_ends`), and a
body those of its nodes (`Blaming.blameBody_ends`).  So renderings keep the world tame, whether they
fail or not (`Engine.render_tame`).
-/

namespace Trellis

open Value (TameItems TameEntries)

/-! ### What is rendered -/

/-- A node of texts that neither includes nor runs a plugin. -/
structure Node.IsTextual (n : Node) : Prop where
  symbol : n.symbol.IsText
  content : n.content.IsText
  keys : ∀ a ∈ n.attributes, a.1.IsText
  settings : ∀ a ∈ n.attributes, (∃ b, a.2 = .bool b) ∨ a.2.IsText
  alone : Role.ofValue n.symbol ≠ .ok .inclusion
  own : ∀ name, Role.ofValue n.symbol ≠ .ok (.plugin name)

/-- The engine evaluates and escapes as usual, and has a list of names for void tags. -/
structure Engine.IsUsual (eng : Engine) : Prop where
  evaluation : eng.evaluation = Expr.evaluation Scope.builtin
  escape : eng.config.escape = Escape.markup
  voidTags : ∃ vs, eng.config.voidTags = .list vs

/-- The sample engines are of the usual kind. -/
theorem Samples.engine_isUsual (id : Nat) : (engine id).IsUsual :=
  ⟨rfl, rfl, _, rfl⟩

/-- Nothing in the world raises complaints of its own: neither the values on the heap, nor the
mixins of the engine, nor what is remembered of nodes. -/
structure World.Tame (eng : Engine) (w : World) : Prop where
  heap : w.heap.Tame
  mixins : ∀ e ∈ w.mixinsOf eng.id, e.2.body.Throughout Node.IsTextual
  memos : ∀ id v, (w.memo id).html = some v → v.IsText

/-- An empty world is tame. -/
theorem World.tame_empty (eng : Engine) : World.empty.Tame eng := by
  have hmixins : World.empty.mixinsOf eng.id = [] := by simp [World.empty, World.mixinsOf]
  refine ⟨.empty, fun e he => ?_, fun id v hv => ?_⟩
  · rw [hmixins] at he
    cases he
  · cases hv

namespace Markup

/-- The start of a tag is written in texts. -/
theorem isText_of_opening {t : Tag} : ∀ v ∈ opening t, v.IsText := by
  unfold opening
  cases t.identity <;> cases t.classText <;> simp [Value.IsText]

theorem isText_of_attributes {as : List String} : ∀ v ∈ attributes as, v.IsText := by
  unfold attributes
  split <;> simp [Value.IsText]

end Markup

/-- What a loop binds is tame if its key and its item are. -/
theorem Render.tame_bindings (names : List String) {key item : Value} (hk : key.Tame)
    (hx : item.Tame) : TameEntries (bindings names key item) := by
  have entry (n : String) {v : Value} (hv : v.Tame) : TameEntries [(.text n, v)] := by
    simpa using hv
  unfold bindings
  split
  · refine TameEntries.insertAll (entry _ hk) ?_
    split
    · exact .nil
    · exact entry _ hx
  · exact entry _ hk
  · exact .nil

/-! ### Positions -/

/-- The failure is about a type, a lookup, an attribute or a name. -/
def Fault.IsMisuse : Fault → Prop
  | .basic c => Expr.isComplained c.kind = true
  | .template c _ =>
    ∃ b ∈ c.kind.bases, b ∈ ["TypeError", "LookupError", "AttributeError", "NameError"]
  | _ => False

/-- The failure is a complaint at the position of the node, or one of the two that are not
located. -/
def Fault.IsPlaced (n : Node) (f : Fault) : Prop :=
  (∃ c, f = .template c n.position) ∨
    (Role.ofValue n.symbol = .ok .forLoop ∧ ∃ t, f = .basic (.notIterable t)) ∨
    (Role.ofValue n.symbol = .ok .tag ∧ ∃ t, f = .basic (.jsonKey t))

/-- The failure, which may blame a node, is placed in the rendering of `n`. -/
def Node.Bears (n : Node) (f : Fault × Option Node) : Prop :=
  f.1.IsMisuse → f.1.IsPlaced (f.2.getD n)

namespace Node.Bears

variable {n : Node}

/-- A node bears a complaint at its position. -/
theorem positioned (n : Node) (c : Complaint) : n.Bears (.template c n.position, none) :=
  fun _ => .inl ⟨c, rfl⟩

/-- A node bears a failure that no complaint is made of. -/
theorem harmless (n : Node) {c : Cause} (hc : c.IsHarmless) : n.Bears (.basic c, none) := by
  intro h
  have h : Expr.isComplained c.kind = true := h
  rw [hc] at h
  cases h

/-- A node bears the failure of an expression at its position. -/
theorem failsAt {f : Fault} (h : Expr.FailsAt n.position f) : n.Bears (f, none) := by
  obtain ⟨c, rfl⟩ | ⟨c, rfl, hc⟩ | rfl := h
  · exact positioned n c
  · exact harmless n hc
  · exact fun h => h.elim

/-- A loop bears the failures of its collection. -/
theorem loops (hr : Role.ofValue n.symbol = .ok .forLoop) {c : Cause} (hc : Action.FailsAs.Loops c) :
    n.Bears (.basic c, none) := by
  obtain ⟨t, rfl⟩ | hc := hc
  · exact fun _ => .inr (.inl ⟨hr, t, rfl⟩)
  · exact harmless n hc

/-- A tag bears the failures of its serialized values. -/
theorem serials (hr : Role.ofValue n.symbol = .ok .tag) {c : Cause} (hc : Json.Serials c) :
    n.Bears (.basic c, none) := by
  obtain ⟨t, rfl⟩ | hc := hc
  · exact fun _ => .inr (.inr ⟨hr, t, rfl⟩)
  · exact harmless n hc

end Node.Bears

/-! ### Computations -/

namespace Blaming

variable {eng : Engine} {α β : Type}

/-- A tame world, and a failure of which `F` holds or a result of which `Q` holds. -/
inductive Ended (eng : Engine) (F : Fault × Option Node → Prop) (Q : α → Prop) :
    Except (Fault × Option Node) α × World → Prop where
  | ok {a : α} {w : World} (ha : Q a) (hw : w.Tame eng) : Ended eng F Q (.ok a, w)
  | error {f : Fault × Option Node} {w : World} (hf : F f) (hw : w.Tame eng) :
    Ended eng F Q (.error f, w)

/-- From a tame world, the computation ends in one, with a failure of which `F` holds or a result of
which `Q` holds. -/
def Ends (eng : Engine) (F : Fault × Option Node → Prop) (Q : α → Prop) (x : Blaming α) : Prop :=
  ∀ w, w.Tame eng → Ended eng F Q (x.exec w)

namespace Ends

variable {F : Fault × Option Node → Prop} {P : α → Prop} {Q : β → Prop}

theorem pure {a : α} (h : P a) : Ends eng F P (Pure.pure a) :=
  fun _ hw => .ok h hw

theorem fail {f : Fault} (h : F (f, none)) : Ends eng F P (eng.blaming.fail f) :=
  fun _ hw => .error h hw

/-- Computations in a row end as they do one by one. -/
theorem bind {x : Blaming α} {f : α → Blaming β} (hx : Ends eng F P x)
    (hf : ∀ a, P a → Ends eng F Q (f a)) : Ends eng F Q (x >>= f) := by
  intro w hw
  have hr := hx w hw
  rw [exec_bind]
  generalize x.exec w = r at hr ⊢
  cases hr with
  | ok ha hw => exact hf _ ha _ hw
  | error hf hw => exact .error hf hw

/-- An end is an end of any weaker kind. -/
theorem mono {G : Fault × Option Node → Prop} {R : α → Prop} {x : Blaming α} (hx : Ends eng F P x)
    (hF : ∀ f, F f → G f) (hP : ∀ a, P a → R a) : Ends eng G R x := by
  intro w hw
  have hr := hx w hw
  generalize x.exec w = r at hr ⊢
  cases hr with
  | ok ha hw => exact .ok (hP _ ha) hw
  | error hf hw => exact .error (hF _ hf) hw

theorem ite (c : Prop) [Decidable c] {x y : Blaming α} (hx : Ends eng F P x)
    (hy : Ends eng F P y) : Ends eng F P (if c then x else y) := by
  split
  · exact hx
  · exact hy

/-- An operation that does not fail. -/
theorem ofCause {a : α} {r : Except Cause α} (hr : r = .ok a) (h : P a) :
    Ends eng F P (eng.blaming.ofCause r) := by
  subst hr
  exact pure h

/-- An action on the heap that keeps to tame values ends as it fails. -/
theorem onHeap {x : Action α} {G : Cause → Prop} (hx : x.Tames P) (hfails : x.FailsAs G)
    (h : ∀ c, G c → F (.basic c, none)) : Ends eng F P (eng.blaming.onHeap x) := by
  intro w hw
  have hexec : (eng.blaming.onHeap x).exec w = (Rendering.onHeap x).unblamed.exec w := rfl
  have hr := hx w.heap hw.heap
  have hf := hfails w.heap
  rw [hexec, Rendering.exec_unblamed, Rendering.exec_onHeap]
  generalize x.run.run w.heap = r at hr hf ⊢
  cases hr with
  | ok ha hh => exact .ok ha ⟨hh, hw.mixins, hw.memos⟩
  | error _ hh =>
    obtain ⟨c, rfl, hc⟩ := hf _ rfl
    exact .error (h c hc) ⟨hh, hw.mixins, hw.memos⟩

/-- What the engine answers. -/
theorem unblamed {x : Rendering α} (h : ∀ w, w.Tame eng →
    Ended eng F P ((Rendering.exec x w).1.mapError (·, none), (Rendering.exec x w).2)) :
    Ends eng F P x.unblamed :=
  h

/-- A node in whose rendering the computation is a part is blamed at last. -/
theorem within {n : Node} {x : Blaming α} (hx : Ends eng n.Bears P x) :
    Ends eng (fun f => ∃ k, f.2 = some k ∧ k.Bears f) P (x.within n) := by
  intro w hw
  have hr := hx w hw
  rw [exec_within]
  generalize x.exec w = r at hr ⊢
  cases hr with
  | ok ha hw => exact .ok ha hw
  | @error f w hf hw =>
    obtain ⟨f, o⟩ := f
    cases o with
    | none => exact .error ⟨n, rfl, hf⟩ hw
    | some k => exact .error ⟨k, rfl, hf⟩ hw

end Ends

/-! ### Expressions and content -/

/-- The bodies of textual nodes bear their failures, whatever node they are rendered for. -/
def Bodies (eng : Engine) (b : Node → Place → Blaming (String × Bool)) : Prop :=
  ∀ k q, k.Throughout Node.IsTextual → q.scope.Tame →
    Ends eng (fun f => ∀ n : Node, n.Bears f) (fun _ => True) (b k q)

variable {n : Node} {p : Place} (g : Group) {b : Node → Place → Blaming (String × Bool)}

/-- An evaluation ends with a tame value, or a failure that the node bears. -/
theorem evaluate_ends (heng : eng.IsUsual) (hp : p.scope.Tame) (text : String) :
    Ends eng n.Bears Value.Tame (eng.blaming.evaluate p.scope n.position (.text text)) := by
  refine .unblamed (x := eng.evaluate p.scope n.position (.text text)) fun w hw => ?_
  -- the evaluation is noted, and then made on the heap of the world
  rw [Engine.evaluate, Rendering.exec_bind, Rendering.exec_note]
  dsimp only
  rw [Rendering.exec_onHeap, heng.evaluation]
  obtain ⟨f, h', hr, hf, hh⟩ | ⟨v, h', hr, hv, hh⟩ :=
    Expr.evaluation_fails hp hw.heap n.position text
  · dsimp only
    rw [hr]
    exact .error (.failsAt hf) ⟨hh, hw.mixins, hw.memos⟩
  · dsimp only
    rw [hr]
    exact .ok hv ⟨hh, hw.mixins, hw.memos⟩

theorem truth_ends (v : Value) :
    Ends eng n.Bears (fun _ => True) (eng.blaming.onHeap (Action.truth v)) :=
  .onHeap (.truth v) (.truth v) fun _ => Node.Bears.harmless n

theorem searchable_ends (hn : n.IsTextual) :
    Ends eng n.Bears (fun _ => True) (eng.blaming.ofCause (Markup.searchable n.content)) := by
  obtain ⟨s, hs⟩ := hn.content
  exact .ofCause (a := s.toList) (by rw [hs]; rfl) trivial

section

variable (heng : eng.IsUsual) (hp : p.scope.Tame)
include heng

/-- Escaping gives a text, or a failure that the node bears. -/
theorem escape_ends (v : Value) :
    Ends eng n.Bears Value.IsText (eng.blaming.ofCause (eng.config.escape v)) :=
  .ofCause (by rw [heng.escape]; rfl) ⟨_, rfl⟩

include hp

/-- The test of a condition ends so. -/
theorem test_ends {t : Value} (ht : t.IsText) :
    Ends eng n.Bears (fun _ => True) (eng.blaming.test p n t) := by
  obtain ⟨s, rfl⟩ := ht
  exact (evaluate_ends heng hp s).bind fun v _ => truth_ends v

/-- The content of a node is written as a text. -/
theorem content_ends (hn : n.IsTextual) :
    Ends eng n.Bears (fun r => r.1.IsText) (eng.blaming.content p n g) := by
  refine .ite _ ((escape_ends heng _).bind fun v hv => .pure hv) ?_
  refine (searchable_ends hn).bind fun s _ => ?_
  cases Header.expression? s with
  | none => exact .pure hn.content
  | some e =>
    refine (evaluate_ends heng hp _).bind fun v _ => ?_
    refine (Ends.onHeap (.embedded v) (.embedded v) fun _ => Node.Bears.harmless n).bind
      fun t _ => ?_
    exact (escape_ends heng _).bind fun v hv => .pure hv

theorem plainText_ends (hn : n.IsTextual) :
    Ends eng n.Bears (fun r => r.1.IsText) (eng.blaming.plainText p n g) := by
  refine (content_ends g heng hp hn).bind fun r hr => ?_
  obtain ⟨s, hs⟩ := hr
  refine (Ends.ofCause (a := .text (" " ++ s)) (P := Value.IsText) ?_ ⟨_, rfl⟩).bind
    fun v hv => .pure hv
  rw [hs]
  rfl

end

theorem comment_ends (hn : n.IsTextual) :
    Ends eng n.Bears (fun r => r.1.IsText) (eng.blaming.comment n g) := by
  obtain ⟨s, hs⟩ := hn.content
  refine (Ends.ofCause (a := .text ("<!--" ++ s ++ "-->")) (P := Value.IsText) ?_ ⟨_, rfl⟩).bind
    fun v hv => .pure hv
  rw [hs]
  rfl

/-! ### Control -/

/-- Entering a node ends so. -/
theorem enter_ends : Ends eng n.Bears (fun _ => True) (eng.blaming.enter n p) :=
  .unblamed (x := pure ()) fun _ hw => .ok trivial hw

section

variable (hb : Bodies eng b)
include hb

/-- The body of a child ends so, by the hypothesis of the induction. -/
theorem body_ends {k : Node} {q : Place} (hk : k.Throughout Node.IsTextual) (hq : q.scope.Tame) :
    Ends eng n.Bears (fun _ => True) (b k q) :=
  (hb k q hk hq).mono (fun _ hf => hf n) fun _ h => h

/-- What stands inside a node is a text. -/
theorem inside_ends {k : Node} {q : Place} (hk : k.Throughout Node.IsTextual) (hq : q.scope.Tame) :
    Ends eng n.Bears Value.IsText (Interpretation.inside b q k) :=
  (body_ends hb hk hq).bind fun _ _ => .pure ⟨_, rfl⟩

variable (heng : eng.IsUsual) (hp : p.scope.Tame) (hn : n.Throughout Node.IsTextual)
include heng hp hn

/-- A condition ends with a text. -/
theorem condition_ends : Ends eng n.Bears (fun r => r.1.IsText) (eng.blaming.condition b p n g) := by
  refine (test_ends heng hp hn.self.content).bind fun c _ => ?_
  exact .ite _ ((inside_ends hb hn hp).bind fun v hv => .pure hv) (.pure ⟨_, rfl⟩)

omit hb in
/-- Whether an alternative is taken ends so. -/
theorem alternativeHolds_ends :
    Ends eng n.Bears (fun _ => True) (eng.blaming.alternativeHolds p n) := by
  refine (searchable_ends hn.self).bind fun s _ => ?_
  cases Header.condition? s with
  | none => exact .pure trivial
  | some c => exact test_ends heng hp ⟨_, rfl⟩

/-- An alternative ends with a text. -/
theorem alternative_ends :
    Ends eng n.Bears (fun r => r.1.IsText) (eng.blaming.alternative b p n g) := by
  refine .ite _ (.pure ⟨_, rfl⟩) ?_
  refine enter_ends.bind fun _ _ => ?_
  refine (alternativeHolds_ends heng hp hn).bind fun c _ => ?_
  exact .ite _ ((inside_ends hb hn hp).bind fun v hv => .pure hv) (.pure ⟨_, rfl⟩)

/-- The rounds of a loop, by induction on their number. -/
theorem whileHolds_ends (limit : Nat) (written : String) :
    Ends eng n.Bears (fun _ => True) (eng.blaming.whileHolds b p n limit written) := by
  induction limit generalizing written with
  | zero => exact .fail fun h => h.elim
  | succ limit ih =>
    refine (test_ends heng hp hn.self.content).bind fun c _ => ?_
    exact .ite _ ((body_ends hb hn hp).bind fun r _ => ih _) (.pure trivial)

omit heng in
/-- The rounds of a loop over a collection, by induction on their number. -/
theorem forEach_ends (names : List String) (limit : Nat) {w : Walk} (hw : w.Tame)
    (written : String) :
    Ends eng n.Bears (fun _ => True) (eng.blaming.forEach b p n names limit w written) := by
  induction limit generalizing w written with
  | zero => exact .fail fun h => h.elim
  | succ limit ih =>
    refine (Ends.onHeap (.next hw) (.next w) fun _ => Node.Bears.harmless n).bind fun r hr => ?_
    cases r with
    | none => exact .pure trivial
    | some r =>
      -- the scope of a round stays tame, since the walk gives tame pairs
      obtain ⟨⟨hk, hx⟩, hw⟩ := hr r rfl
      refine (body_ends hb hn ?_).bind fun _ _ => ih hw _
      exact hp.extend fun e he => (Render.tame_bindings names hk hx e he).2

omit hb heng hp in
/-- The header of a loop ends so; without a variable, the complaint has the position. -/
theorem loopHeader_ends : Ends eng n.Bears (fun _ => True) (eng.blaming.loopHeader n) := by
  refine (searchable_ends hn.self).bind fun s _ => ?_
  cases Header.loop? s with
  | none => exact .fail (.positioned n _)
  | some l => exact .ite _ (.fail (.positioned n _)) (.pure trivial)

/-- The collection is gone through outside of the expression. -/
theorem forLoop_ends (hr : Role.ofValue n.symbol = .ok .forLoop) (limit : Nat) :
    Ends eng n.Bears (fun r => r.1.IsText) (eng.blaming.forLoop b limit p n g) := by
  refine (loopHeader_ends hn).bind fun l _ => ?_
  refine (evaluate_ends heng hp l.2).bind fun v hv => ?_
  refine (Ends.onHeap (.start hv) (.start v) fun _ => Node.Bears.loops hr).bind fun w hw => ?_
  exact (forEach_ends hb hp hn l.1 limit hw "").bind fun _ _ => .pure ⟨_, rfl⟩

/-! ### Mixins -/

omit hb heng hp in
/-- A definition ends with a text, and what it keeps is textual. -/
theorem definition_ends (name : String) :
    Ends eng n.Bears (fun r => r.1.IsText) (eng.blaming.definition n g name) := by
  refine (Ends.unblamed (P := fun _ => True) fun w hw => ?_).bind fun _ _ => .pure ⟨_, rfl⟩
  -- of the world, only the mixins of the engine count here
  have hall : w.Throughout Node.IsTextual {eng.id} ∅ :=
    ⟨fun i hi => hi ▸ hw.mixins, fun k hk => hk.elim⟩
  have hdefined := (World.Throughout.maintains_define (Set.mem_singleton eng.id) name
    (d := ⟨n, n.attributes.map (·.1)⟩) hn w hall).1
  exact .ok trivial ⟨hw.heap, hdefined.mixins eng.id rfl, hw.memos⟩

omit hb heng hp hn in
/-- A mixin that is found is textual; one that is not is complained about. -/
theorem mixin_ends (name : String) :
    Ends eng n.Bears (fun d => d.body.Throughout Node.IsTextual)
      (eng.blaming.mixin name n.position) := by
  refine .unblamed (x := eng.mixin name n.position) fun w hw => ?_
  have hknown : Rendering.exec (eng.mixin? name) w =
      (.ok (Table.get? name (w.mixinsOf eng.id)), w) := rfl
  rw [Engine.mixin, Rendering.exec_bind, hknown]
  cases h : Table.get? name (w.mixinsOf eng.id) with
  | none => exact .error (.positioned n _) hw
  | some d => exact .ok (hw.mixins _ (Table.mem_of_get? h)) hw

omit hb hn in
/-- Arguments are evaluated to tame values. -/
theorem evaluateAll_ends {es : List Value} (hes : ∀ e ∈ es, e.IsText) :
    Ends eng n.Bears TameItems (eng.blaming.evaluateAll p n es) := by
  induction es with
  | nil => exact .pure .nil
  | cons e es ih =>
    obtain ⟨⟨s, rfl⟩, hrest⟩ := List.forall_mem_cons.mp hes
    refine (evaluate_ends heng hp s).bind fun v hv => (ih hrest).bind fun vs hvs => ?_
    exact .pure (TameItems.cons.mpr ⟨hv, hvs⟩)

/-- A call of a mixin ends with a text. -/
theorem call_ends (name : String) :
    Ends eng n.Bears (fun r => r.1.IsText) (eng.blaming.call b p n g name) := by
  have hkeys : ∀ e ∈ n.attributes.map (·.1), e.IsText := by
    simpa using hn.self.keys
  refine (mixin_ends name).bind fun d hd => ?_
  refine (evaluateAll_ends heng hp hkeys).bind fun args hargs => ?_
  refine (inside_ends hb hd ?_).bind fun v hv => .pure hv
  exact hp.extend fun e he => hargs e.2 (List.of_mem_zip he).2

end

/-! ### Tags -/

section

variable (heng : eng.IsUsual)
include heng

/-- The value is serialized outside of the expression. -/
theorem attributeValue_ends (hr : Role.ofValue n.symbol = .ok .tag) {key : Value}
    (hkey : key.IsText) (v : Value) :
    Ends eng n.Bears (fun _ => True) (eng.blaming.attributeValue key v) := by
  obtain ⟨k, rfl⟩ := hkey
  refine (Ends.onHeap (.written v) (.written v) fun _ => Node.Bears.serials hr).bind fun s _ => ?_
  exact .ite _ ((escape_ends heng _).bind fun _ _ => .pure trivial) (.pure trivial)

/-- Nothing but texts is in an opening tag, with or without a closing one. -/
theorem closing_ends (t : Tag) :
    Ends eng n.Bears (fun es => ∀ e ∈ es, e.IsText)
      (eng.blaming.ofCause (Markup.closing eng.config.voidTags t)) := by
  obtain ⟨vs, hvs⟩ := heng.voidTags
  cases hname : vs.any (Value.sameItem (.text t.name)) with
  | true =>
    refine .ofCause (a := []) ?_ (by simp)
    rw [hvs, Markup.closing, Markup.nameOccurs, hname]
    rfl
  | false =>
    refine .ofCause (a := [.text "</", .text t.name, .text ">"]) ?_ (by simp [Value.IsText])
    rw [hvs, Markup.closing, Markup.nameOccurs, hname]
    rfl

variable (hp : p.scope.Tame)
include hp

/-- An attribute of a tag ends so; its serialized value may have a key that is refused. -/
theorem attributeOf_ends (hr : Role.ofValue n.symbol = .ok .tag) {key v : Value}
    (hkey : key.IsText) (hv : (∃ b, v = .bool b) ∨ v.IsText) :
    Ends eng n.Bears (fun _ => True) (eng.blaming.attributeOf p n g key v) := by
  obtain ⟨b, rfl⟩ | ⟨s, rfl⟩ := hv
  · exact .pure trivial
  · refine .ite _ (.pure trivial) ?_
    refine (evaluate_ends heng hp s).bind fun v _ => (truth_ends v).bind fun c _ => ?_
    exact .ite _ (.pure trivial)
      ((attributeValue_ends heng hr hkey v).bind fun _ _ => .pure trivial)

/-- So do all attributes, one after the other. -/
theorem attributesOf_ends (hr : Role.ofValue n.symbol = .ok .tag) {as : List (Value × Value)}
    (has : ∀ a ∈ as, a.1.IsText ∧ ((∃ b, a.2 = .bool b) ∨ a.2.IsText)) :
    Ends eng n.Bears (fun _ => True) (eng.blaming.attributesOf p n as g) := by
  induction as generalizing g with
  | nil => exact .pure trivial
  | cons a as ih =>
    obtain ⟨⟨hkey, hv⟩, has⟩ := List.forall_mem_cons.mp has
    refine (attributeOf_ends g heng hp hr hkey hv).bind fun r _ => ?_
    exact (ih r.2 has).bind fun _ _ => .pure trivial

/-- The content of a tag is written in texts. -/
theorem tagContent_ends (hn : n.IsTextual) :
    Ends eng n.Bears (fun r => ∀ v ∈ r.1, v.IsText) (eng.blaming.tagContent p n g) := by
  refine .ite _ ((content_ends g heng hp hn).bind fun r hr => ?_) (.pure (by simp))
  exact .pure (by simpa using hr)

omit heng in
/-- So is what stands inside it. -/
theorem tagBody_ends (hb : Bodies eng b) (hn : n.Throughout Node.IsTextual) :
    Ends eng n.Bears (fun r => ∀ v ∈ r.1, v.IsText) (Interpretation.tagBody b p n g) := by
  refine .ite _ (.pure (by simp)) ((body_ends hb hn hp).bind fun r _ => ?_)
  exact .pure (by simp [Value.IsText])

variable (hb : Bodies eng b) (hn : n.Throughout Node.IsTextual)
include hb hn

/-- The markup of a tag is a text. -/
theorem tagMarkup_ends (hr : Role.ofValue n.symbol = .ok .tag) :
    Ends eng n.Bears (fun _ => True) (eng.blaming.tagMarkup b p n g) := by
  obtain ⟨symbol, hsymbol⟩ := hn.self.symbol
  refine (Ends.ofCause (a := Tag.ofSymbol symbol) (P := fun _ => True) ?_ trivial).bind
    fun t _ => ?_
  · rw [hsymbol]
    rfl
  have hattributes := fun a ha => And.intro (hn.self.keys a ha) (hn.self.settings a ha)
  refine (attributesOf_ends g heng hp hr hattributes).bind fun as _ => ?_
  refine (tagContent_ends as.2 heng hp hn.self).bind fun cs hcs => ?_
  refine (tagBody_ends cs.2 hp hb hn).bind fun bs hbs => ?_
  refine (closing_ends heng t).bind fun es hes => ?_
  have hall : ∀ v ∈ Markup.opening t ++ Markup.attributes as.1 ++ cs.1 ++ bs.1 ++ es, v.IsText := by
    simp only [List.forall_mem_append]
    exact ⟨⟨⟨⟨Markup.isText_of_opening, Markup.isText_of_attributes⟩, hcs⟩, hbs⟩, hes⟩
  obtain ⟨s, hs⟩ := Markup.exists_join hall
  exact (Ends.ofCause hs (P := fun _ => True) trivial).bind fun _ _ => .pure trivial

/-- A tag ends with a text, remembered or not. -/
theorem tag_ends (hr : Role.ofValue n.symbol = .ok .tag) :
    Ends eng n.Bears (fun r => r.1.IsText) (eng.blaming.tag b p n g) := by
  have remembering (html : String) :
      Ends eng n.Bears (fun _ => True) (eng.blaming.remember n html) := by
    refine .unblamed (x := eng.remember n html) fun w hw => .ok trivial ?_
    refine ⟨hw.heap, hw.mixins, fun id v hv => ?_⟩
    have hmemo := World.memo_setMemo w n.id ⟨some (.text html), some eng.id⟩ id
    have hv : ((w.setMemo n.id ⟨some (.text html), some eng.id⟩).memo id).html = some v := hv
    rw [hmemo] at hv
    split at hv
    · exact ⟨html, (Option.some.inj hv).symm⟩
    · exact hw.memos id v hv
  refine (tagMarkup_ends g heng hp hb hn hr).bind fun r _ => ?_
  refine .ite _ ((remembering r.1).bind fun _ _ => .pure ⟨_, rfl⟩) ?_
  exact .pure ⟨_, rfl⟩

/-! ### Nodes -/

/-- A node in any role ends with a text, or with a failure that it bears. -/
theorem inRole_ends (limit : Nat) {r : Role} (hr : Role.ofValue n.symbol = .ok r) :
    Ends eng n.Bears (fun r => r.1.IsText) (eng.blaming.inRole b limit p n g r) := by
  cases r with
  | condition => exact condition_ends g hb heng hp hn
  | alternative => exact alternative_ends g hb heng hp hn
  | whileLoop => exact (whileHolds_ends hb heng hp hn limit "").bind fun _ _ => .pure ⟨_, rfl⟩
  | forLoop => exact forLoop_ends g hb heng hp hn hr limit
  | each => exact .fail (.positioned n _)
  | comment => exact comment_ends g hn.self
  | inclusion => exact absurd hr hn.self.alone
  | text => exact plainText_ends g heng hp hn.self
  | inlineCode => exact .fail (.positioned n _)
  | plugin name => exact absurd hr (hn.self.own name)
  | call name => exact call_ends g hb heng hp hn name
  | definition name => exact definition_ends g hn name
  | tag => exact tag_ends g heng hp hb hn hr

/-- **A node bears its failures**, those of its children apart. -/
theorem node_ends (limit : Nat) :
    Ends eng n.Bears (fun r => r.1.IsText) (eng.blaming.node b limit p n g) := by
  refine .ite _ (alternative_ends g hb heng hp hn) (.ite _ (.pure ⟨_, rfl⟩) ?_)
  have recalled : Ends eng n.Bears (fun o => ∀ v ∈ o, v.IsText) (eng.blaming.remembered? n) := by
    refine .unblamed (x := eng.remembered? n) fun w hw => .ok (fun v hv => ?_) hw
    exact hw.memos n.id v (Option.ite_none_right_eq_some.mp hv).2
  refine recalled.bind fun o ho => ?_
  cases o with
  | some html => exact .pure (ho html rfl)
  | none =>
    obtain ⟨symbol, hsymbol⟩ := hn.self.symbol
    have hr : Role.ofValue n.symbol = .ok (Role.ofSymbol symbol) := by rw [hsymbol]; rfl
    refine (Ends.ofCause hr (P := fun r => Role.ofValue n.symbol = .ok r) hr).bind fun r hr => ?_
    refine enter_ends.bind fun _ _ => ?_
    exact inRole_ends g heng hp hb hn limit hr

end

/-! ### Groups and bodies -/

/-- The node that is blamed bears the failure. -/
def Borne (f : Fault × Option Node) : Prop :=
  ∃ k, f.2 = some k ∧ k.Bears f

/-- A failure that some node bears is borne by every node around. -/
theorem Borne.bears {f : Fault × Option Node} (hf : Borne f) (n : Node) : n.Bears f := by
  obtain ⟨f, o⟩ := f
  obtain ⟨k, rfl, hk⟩ := hf
  exact hk

section

variable (heng : eng.IsUsual)
include heng

/-- Siblings one after the other end so. -/
theorem blameNodes_ends (hb : Bodies eng b) (hp : p.scope.Tame) (limit : Nat) {ns : List Node}
    (hns : ∀ n ∈ ns, n.Throughout Node.IsTextual) :
    Ends eng Borne (fun r => ∀ v ∈ r.1, v.IsText) (eng.blameNodes b limit p ns g) := by
  induction ns generalizing g with
  | nil => exact .pure (by simp)
  | cons n ns ih =>
    obtain ⟨hn, hns⟩ := List.forall_mem_cons.mp hns
    refine (node_ends g heng hp hb hn limit).within.bind fun r hr => ?_
    refine (ih r.2 hns).bind fun rs hrs => .pure ?_
    exact List.forall_mem_cons.mpr ⟨hr, hrs⟩

/-- **All bodies bear their failures**, by induction on the depth. -/
theorem blameBody_ends (depth : Nat) : Bodies eng (eng.blameBody depth) := by
  induction depth with
  | zero => exact fun k q _ _ => .fail fun n h => h.elim
  | succ depth ih =>
    intro k q hk hq
    have hnodes := blameNodes_ends Group.start heng ih hq depth hk.children
    refine (hnodes.mono (fun _ => Borne.bears) fun _ h => h).bind fun r hr => ?_
    obtain ⟨vs, isDynamic, pending⟩ := r
    cases pending with
    | some c =>
      -- a complaint about a missing alternative is none of misuse
      refine .fail fun n h => ?_
      obtain ⟨_, hbase, -⟩ := h
      cases hbase
    | none =>
      obtain ⟨s, hs⟩ := Markup.exists_join hr
      exact (Ends.ofCause hs (P := fun _ => True) trivial).bind fun _ _ => .pure trivial

/-- **Whole renderings.**  One fails with what one of its nodes bears, or gives markup. -/
theorem blame_ends {tree : Node} (htree : tree.Throughout Node.IsTextual) {scope : Scope}
    (hscope : scope.Tame) (depth : Nat) (location : Option String) :
    Ends eng Borne (fun _ => True) (eng.blame depth tree scope location) := by
  refine Ends.within ((body_ends (blameBody_ends heng depth) htree hscope).bind fun _ _ => ?_)
  exact .pure trivial

end

end Blaming

/-! ### Renderings -/

namespace Engine

variable {eng : Engine} (heng : eng.IsUsual) {tree : Node} (htree : tree.Throughout Node.IsTextual)
  {scope : Scope} (hscope : scope.Tame) {w : World} (hw : w.Tame eng)
include heng htree hscope hw

/-- **The world stays tame**, whether the rendering fails or not. -/
theorem render_tame (depth : Nat) (location : Option String) :
    (Rendering.exec (eng.render depth tree scope location) w).2.Tame eng := by
  have hends := Blaming.blame_ends heng htree hscope depth location w hw
  rw [eng.exec_blame]
  generalize (eng.blame depth tree scope location).exec w = r at hends ⊢
  cases hends with
  | ok _ hw => exact hw
  | error _ hw => exact hw

/-- **Misuse is positioned**, but for what a loop goes through and what is serialized.  If a
rendering of texts fails by a type, a lookup, an attribute or a name, then with a complaint at the
position of the node that was being rendered; or the node is a loop whose collection has no items,
or a tag with a value that has a key which cannot be serialized. -/
theorem misuse_positioned {depth : Nat} {location : Option String} {f : Fault} {w' : World}
    (h : Rendering.exec (eng.render depth tree scope location) w = (.error f, w'))
    (hf : f.IsMisuse) :
    ∃ n, (eng.blame depth tree scope location).exec w = (.error (f, some n), w') ∧
      ((∃ c, f = .template c n.position) ∨
        (Role.ofValue n.symbol = .ok .forLoop ∧ ∃ t, f = .basic (.notIterable t)) ∨
        (Role.ofValue n.symbol = .ok .tag ∧ ∃ t, f = .basic (.jsonKey t))) := by
  have hends := Blaming.blame_ends heng htree hscope depth location w hw
  rw [eng.exec_blame] at h
  generalize (eng.blame depth tree scope location).exec w = r at hends h ⊢
  cases hends with
  | ok _ _ => cases h
  | @error e u he hu =>
    obtain ⟨g, o⟩ := e
    obtain ⟨n, rfl, hn⟩ := he
    cases h
    exact ⟨n, rfl, hn hf⟩

end Engine

/-! ### A condition and a loop -/

open Rendering (exec exec_bind_ok exec_bind_error)

namespace Node

/-- A node without children at line 1 and column 2. -/
def placed (symbol content : String) : Node :=
  { Samples.leaf 1 symbol content with position := .list [.int 1, .int 2] }

/-- The tree of a single node. -/
def single (n : Node) : Node :=
  Samples.node 0 "" "" [n]

/-- A node with a symbol and a content is textual, unless it includes or runs a plugin. -/
theorem isTextual_of_role {n : Node} {symbol content : String} (hsymbol : n.symbol = .text symbol)
    (hcontent : n.content = .text content) (hattributes : n.attributes = []) {r : Role}
    (hr : Role.ofSymbol symbol = r) (halone : r ≠ .inclusion) (hown : ∀ name, r ≠ .plugin name) :
    n.IsTextual where
  symbol := ⟨symbol, hsymbol⟩
  content := ⟨content, hcontent⟩
  keys := by simp [hattributes]
  settings := by simp [hattributes]
  alone := by simpa [hsymbol, Role.ofValue, hr] using halone
  own := by simpa [hsymbol, Role.ofValue, hr] using hown

theorem single_textual {symbol content : String} {r : Role} (hr : Role.ofSymbol symbol = r)
    (halone : r ≠ .inclusion) (hown : ∀ name, r ≠ .plugin name) :
    (single (placed symbol content)).Throughout IsTextual := by
  refine .intro (isTextual_of_role rfl rfl rfl (r := .tag) (by decide) (by decide) (by simp)) ?_
  refine List.forall_mem_singleton.mpr (.intro ?_ ?_)
  · exact isTextual_of_role rfl rfl rfl hr halone hown
  · exact fun _ hc => nomatch hc

end Node

namespace Engine

/-- A tree fails as its single node does. -/
theorem exec_render_single {eng : Engine} {n : Node} {scope : Scope} {w w' : World} {f : Fault}
    (h : exec (Render.node eng (Render.body eng 0) 0 ⟨scope, none⟩ n Group.start) w =
      (.error f, w')) :
    exec (eng.render 1 (.single n) scope none) w = (.error f, w') := by
  have hnodes : exec (Render.nodes eng (Render.body eng 0) 0 ⟨scope, none⟩ [n] Group.start) w =
      (.error f, w') := by
    rw [Render.nodes, exec_bind_error h]
  have hgroup : exec (Render.body eng 1 (.single n) ⟨scope, none⟩) w = (.error f, w') := by
    show exec (Render.group eng (Render.body eng 0) 0 ⟨scope, none⟩ [n]) w = _
    rw [Render.group, exec_bind_error hnodes]
  show exec (do return (← Render.body eng 1 (.single n) ⟨scope, none⟩).1) w = _
  rw [exec_bind_error hgroup]

open Samples (engine)

/-- The world behind the evaluation of `v`. -/
def lookedUp (scope : Scope) : World :=
  { World.empty with events := #[.evaluated 0 scope (.list [.int 1, .int 2]) (.text "v")] }

theorem misuse_positioned_condition :
    exec ((engine 0).render 1 (.single (.placed "if" "v")) [] none) World.empty =
      (.error (.template (.unbound "v") (.list [.int 1, .int 2])), lookedUp []) ∧
    ∃ n, ((engine 0).blame 1 (.single (.placed "if" "v")) [] none).exec World.empty =
        (.error (.template (.unbound "v") (.list [.int 1, .int 2]), some n), lookedUp []) ∧
      n.position = .list [.int 1, .int 2] := by
  have hrun : exec ((engine 0).render 1 (.single (.placed "if" "v")) [] none) World.empty =
      (.error (.template (.unbound "v") (.list [.int 1, .int 2])), lookedUp []) :=
    exec_render_single rfl
  have hmisuse : Fault.IsMisuse (.template (.unbound "v") (.list [.int 1, .int 2])) :=
    ⟨"NameError", by decide, by decide⟩
  obtain ⟨n, hblame, ⟨c, hc⟩ | ⟨-, t, ht⟩ | ⟨-, t, ht⟩⟩ :=
    misuse_positioned (Samples.engine_isUsual 0)
      (Node.single_textual (r := .condition) (by decide) (by decide) (by simp))
      (Scope.Tame.of_forall (by simp)) (World.tame_empty (Samples.engine 0)) hrun hmisuse
  · exact ⟨hrun, n, hblame, (Fault.template.inj hc).2.symm⟩
  · cases ht
  · cases ht

/-- A loop over a number fails by a type, and without a position. -/
theorem misuse_unpositioned_loop :
    (Node.single (.placed "for" "x in v")).Throughout Node.IsTextual ∧
    Scope.Tame [(.text "v", .int 5)] ∧
    ∃ f, exec ((engine 0).render 1 (.single (.placed "for" "x in v")) [(.text "v", .int 5)] none)
        World.empty = (.error f, lookedUp [(.text "v", .int 5)]) ∧
      f.IsMisuse ∧ ∀ c position, f ≠ .template c position := by
  refine ⟨Node.single_textual (r := .forLoop) (by decide) (by decide) (by simp),
    Scope.Tame.of_forall (by simp), .basic (.notIterable "int"), exec_render_single ?_, rfl, by simp⟩
  have hheader : exec (Render.loopHeader (.placed "for" "x in v")) World.empty =
      (.ok (["x"], "v"), World.empty) := rfl
  have hvalue : exec (Render.evaluate (engine 0) ⟨[(.text "v", .int 5)], none⟩ (.placed "for" "x in v")
      (.text "v")) World.empty = (.ok (.int 5), lookedUp [(.text "v", .int 5)]) := rfl
  have hstart : exec (Rendering.onHeap (Walk.start (.int 5))) (lookedUp [(.text "v", .int 5)]) =
      (.error (.basic (.notIterable "int")), lookedUp [(.text "v", .int 5)]) := rfl
  have hother : Role.isAlternative (Node.placed "for" "x in v").symbol = false := rfl
  have hmissed : (engine 0).taken? (World.empty.memo (Node.placed "for" "x in v").id) = none := rfl
  have hrole : exec (Rendering.ofCause (Role.ofValue (Node.placed "for" "x in v").symbol))
      World.empty = (.ok .forLoop, World.empty) := rfl
  rw [Static.exec_node_missed hother rfl hmissed, exec_bind_ok hrole, Render.inRole,
    Render.forLoop, exec_bind_ok hheader, exec_bind_ok hvalue, exec_bind_error hstart]

end Engine

end Trellis
