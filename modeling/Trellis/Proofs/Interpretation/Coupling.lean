import Trellis.Proofs.Interpretation.Renderer

/-!
# Proofs — Interpretation — Coupling

Two interpretations side by side.  A `Coupling` says which computations of the one go with which of
the other, and is closed under the ways in which computations are made of others.  If the answers of
the interpretations go together, so do the renderings (`Coupling.body`): what a rendering does is
made of answers in the same order on both sides.

The scopes and the locations of the two sides need not be equal, as long as they stay related when
names are bound.  An answer has to be given only where a rendering asks for it:

* an expression is evaluated only if it is one of its node's (`Node.expressions`);
* the operations on the heap fail as operations on values do (`Action.FailsBasically`), so that an
  unknown mixin is complained about by nobody but the answer to a call.
-/

namespace Trellis

/-! ### The expressions of a node -/

namespace Node

/-- The expression that is found in the content, if any. -/
def inContent (n : Node) (find : List Char → Option String) : List Value :=
  match Markup.searchable n.content with
  | .ok s => (find s).toList.map .text
  | .error _ => []

/-- The expression that the content is, if it is one. -/
def contentExpressions (n : Node) : List Value :=
  n.inContent fun s => (Header.expression? s).map Markup.expression

/-- The value of an attribute, if it is evaluated. -/
def computed? : Value → Option Value
  | .bool _ => none
  | v => if v.truth then some v else none

/-- The expressions of a node in a role. -/
def expressionsAs (n : Node) : Role → List Value
  | .condition | .whileLoop => [n.content]
  | .alternative => n.inContent fun s => (Header.condition? s).map String.ofList
  | .forLoop => n.inContent fun s => (Header.loop? s).map fun l => String.ofList l.2
  | .text => n.contentExpressions
  | .call _ => n.attributes.map (·.1)
  | .tag => n.attributes.filterMap (fun a => computed? a.2) ++ n.contentExpressions
  | _ => []

/-- The expressions of a node. -/
def expressions (n : Node) : List Value :=
  match Role.ofValue n.symbol with
  | .ok r => n.expressionsAs r
  | .error _ => []

variable {n : Node}

/-- The expressions of a node are those of its role. -/
theorem expressions_of_role {r : Role} (hr : Role.ofValue n.symbol = .ok r) :
    n.expressions = n.expressionsAs r := by
  unfold expressions
  rw [hr]

/-- What is found in the content is one of its expressions. -/
theorem mem_inContent {find : List Char → Option String} {s : List Char} {e : String}
    (hs : Markup.searchable n.content = .ok s) (he : find s = some e) :
    .text e ∈ n.inContent find := by
  unfold inContent
  rw [hs]
  simp [he]

/-- The expression that the content is, is one of them. -/
theorem mem_contentExpressions {s e : List Char} (hs : Markup.searchable n.content = .ok s)
    (he : Header.expression? s = some e) :
    .text (Markup.expression e) ∈ n.contentExpressions :=
  mem_inContent hs (by simp [he])

end Node

/-- A symbol is that of an alternative just if its role is. -/
theorem Role.isAlternative_iff {v : Value} :
    Role.isAlternative v = true ↔ Role.ofValue v = .ok .alternative := by
  constructor
  · intro h
    cases v with
    | text s => exact congrArg Except.ok (of_decide_eq_true h)
    | _ => cases h
  · intro h
    unfold Role.ofValue at h
    split at h
    · exact decide_eq_true (Except.ok.inj h)
    · split at h
      · cases h
      · split at h <;> cases h

/-! ### Failures -/

/-- The complaint that a mixin is unknown. -/
def Fault.IsUnknownMixin (f : Fault) : Prop :=
  ∃ name position, f = .template (.unknownMixin name) position

/-- All failures are failures of operations on values. -/
def Action.FailsBasically {α : Type} (a : Action α) : Prop :=
  ∀ h f, (a.run.run h).1 = .error f → ∃ c, f = .basic c

/-- Actions in a row run one after the other, up to a failure. -/
theorem Action.run_bind {α β : Type} (a : Action α) (b : α → Action β) (h : Heap) :
    (a >>= b).run.run h =
      match a.run.run h with
      | (.ok x, h') => (b x).run.run h'
      | (.error e, h') => (.error e, h') := by
  rw [ExceptT.run_bind, StateT.run_bind]
  rcases StateT.run (ExceptT.run a) h with ⟨_ | _, _⟩ <;> rfl

/-- After a result, the action that follows runs with it. -/
theorem Action.run_bind_ok {α β : Type} {a : Action α} {b : α → Action β} {x : α} {h h' : Heap}
    (ha : a.run.run h = (.ok x, h')) : (a >>= b).run.run h = (b x).run.run h' := by
  rw [Action.run_bind, ha]

/-- What handles a failure runs in the heap that the failure left. -/
theorem Action.run_tryCatch {α : Type} (x : Action α) (k : Fault → Action α) (h : Heap) :
    (tryCatch x k).run.run h =
      match x.run.run h with
      | (.ok a, h') => (.ok a, h')
      | (.error f, h') => (k f).run.run h' := by
  simp only [tryCatch, tryCatchThe, MonadExceptOf.tryCatch, ExceptT.tryCatch, ExceptT.run_mk,
    StateT.run_bind]
  rcases hx : x.run.run h with ⟨f | a, h'⟩
  all_goals
    have hx : StateT.run x h = _ := hx
    rw [hx]
    rfl

namespace Action.FailsBasically

variable {α β : Type}

theorem pure (a : α) : FailsBasically (Pure.pure a : Action α) := by
  intro h f he
  cases he

theorem fail (c : Cause) : FailsBasically (Action.fail c : Action α) := by
  intro h f he
  exact ⟨c, (Except.error.inj he).symm⟩

theorem get : FailsBasically (getThe Heap : Action Heap) := by
  intro h f he
  cases he

/-- Actions in a row fail as they do one by one. -/
theorem bind {a : Action α} {b : α → Action β} (ha : a.FailsBasically)
    (hb : ∀ x, (b x).FailsBasically) : (a >>= b).FailsBasically := by
  intro h f he
  have hf := ha h
  rw [run_bind] at he
  rcases hr : a.run.run h with ⟨e | x, h'⟩ <;> rw [hr] at he hf
  · obtain rfl := Except.error.inj he
    exact hf e rfl
  · exact hb x h' f he

/-- An operation on values fails as such. -/
theorem ofExcept (r : Except Cause α) : FailsBasically (Action.ofExcept r) := by
  cases r with
  | ok a => exact pure a
  | error c => exact fail c

theorem view (v : Value) : FailsBasically (Action.view v) :=
  get.bind fun _ => pure _

theorem slots (v : Value) : FailsBasically (Action.slots v) :=
  get.bind fun _ => pure _

/-- A choice between actions fails as they do. -/
theorem ite (c : Prop) [Decidable c] {a b : Action α} (ha : a.FailsBasically)
    (hb : b.FailsBasically) : (if c then a else b).FailsBasically := by
  split
  · exact ha
  · exact hb

/-- Asking for truth does not fail. -/
theorem truth (v : Value) : FailsBasically (Action.truth v) := by
  refine get.bind fun h => ?_
  split
  · split <;> exact pure _
  · exact pure _

/-- What is put into markup is refused only as an operation is. -/
theorem embedded (v : Value) : FailsBasically (Action.embedded v) := by
  refine bind (get.bind fun _ => pure _ : FailsBasically (Action.deep v)) ?_ |>.bind fun _ => pure _
  exact fun v => ite _ (fail _) (pure _)

/-- So is what is serialized. -/
theorem written (v : Value) :
    FailsBasically (do Action.ofExcept (Json.write (← Action.serial v))) :=
  (get.bind fun _ => pure _ : FailsBasically (Action.serial v)).bind fun _ => ofExcept _

theorem entriesOf (v : Value) : FailsBasically (Value.entriesOf v) := by
  refine (view v).bind fun w => ?_
  split <;> exact pure _

theorem rangeItems (a b c : Int) : FailsBasically (Value.rangeItems a b c) :=
  ite _ (fail _) (ite _ (pure _) (fail _))

/-- Items are refused only as an operation is. -/
theorem items? (v : Value) : FailsBasically (Value.items? v) := by
  refine (view v).bind fun w => ?_
  split
  case h_5 => exact (rangeItems _ _ _).bind fun _ => pure _
  case h_7 => exact (entriesOf _).bind fun _ => pure _
  all_goals exact pure _

theorem items (v : Value) : FailsBasically (Value.items v) := by
  refine (items? v).bind fun xs => ?_
  split
  · exact pure _
  · exact fail _

/-- So is the start of a walk. -/
theorem start (v : Value) : FailsBasically (Walk.start v) := by
  have dictionary (d : Value) (part : Option Part) : FailsBasically (DictWalk.start d part) :=
    (slots d).bind fun _ => pure _
  unfold Walk.start
  split
  · exact pure _
  · exact (dictionary _ _).bind fun _ => pure _
  · refine (view _).bind fun w => ?_
    split
    · exact pure _
    · exact (dictionary _ _).bind fun _ => pure _
    · exact pure _
    · exact (items _).bind fun _ => pure _

/-- A walk that cannot go on fails as an operation does. -/
theorem next (w : Walk) : FailsBasically w.next := by
  unfold Walk.next
  split
  · exact pure _
  · exact pure _
  · exact ite _ (pure _) (pure _)
  · refine (view _).bind fun w => ?_
    split
    · split <;> exact pure _
    · exact pure _
  · next d =>
    have step : FailsBasically d.next := by
      refine (slots d.dict).bind fun s => ite _ (fail _) ?_
      split
      · exact pure _
      · exact ite _ (fail _) (pure _)
    refine step.bind fun r => ?_
    split <;> exact pure _

end Action.FailsBasically

/-! ### Couplings -/

/-- Two interpretations side by side: the nodes that may be rendered, the scopes and locations that
go together, and the computations that do.  `Rel R` says this of computations whose results `R`
relates. -/
structure Coupling {eng : Engine} {m m' : Type → Type} [Monad m] [Monad m']
    (I : Interpretation eng m) (J : Interpretation eng m') where
  node : Node → Prop
  scope : Scope → Scope → Prop
  location : Option String → Option String → Prop
  Rel {α : Type} : (α → α → Prop) → m α → m' α → Prop
  children {n : Node} : node n → ∀ c ∈ n.children, node c
  extend {s s' : Scope} (bindings : Scope) :
    scope s s' → scope (s.extend bindings) (s'.extend bindings)
  pure {α : Type} {R : α → α → Prop} {a b : α} : R a b → Rel R (Pure.pure a) (Pure.pure b)
  bind {α β : Type} {R : α → α → Prop} {Q : β → β → Prop} {x : m α} {y : m' α} {f : α → m β}
    {g : α → m' β} : Rel R x y → (∀ a b, R a b → Rel Q (f a) (g b)) → Rel Q (x >>= f) (y >>= g)
  fail {α : Type} {R : α → α → Prop} {f : Fault} : ¬ f.IsUnknownMixin → Rel R (I.fail f) (J.fail f)
  onHeap {α : Type} {a : Action α} : a.FailsBasically → Rel Eq (I.onHeap a) (J.onHeap a)
  enter {n : Node} {p q : Place} : node n → scope p.scope q.scope →
    (∀ name, Role.ofValue n.symbol ≠ .ok (.definition name)) → Rel Eq (I.enter n p) (J.enter n q)
  /-- A definition is executed at once. -/
  define {n : Node} {p q : Place} {name : String} : node n → scope p.scope q.scope →
    Role.ofValue n.symbol = .ok (.definition name) →
    Rel Eq (do I.enter n p; I.define name ⟨n, n.attributes.map (·.1)⟩)
      (do J.enter n q; J.define name ⟨n, n.attributes.map (·.1)⟩)
  evaluate {n : Node} {s s' : Scope} {t : Value} : node n → t ∈ n.expressions → scope s s' →
    Rel Eq (I.evaluate s n.position t) (J.evaluate s' n.position t)
  mixin (name : String) (position : Value) :
    Rel (fun d d' => d = d' ∧ node d.body) (I.mixin name position) (J.mixin name position)
  plugin (name : String) (position : Value) :
    Rel Eq (I.plugin name position) (J.plugin name position)
  transform (name : String) (q : Plugin) (source : String) (attributes : List (Value × Value)) :
    Rel Eq (I.transform name q source attributes) (J.transform name q source attributes)
  text (path : String) {l l' : Option String} : location l l' →
    Rel Eq (I.text path l) (J.text path l')
  tree (path : String) {l l' : Option String} : location l l' →
    Rel (fun r r' => r.1 = r'.1 ∧ node r.1 ∧ location r.2 r'.2) (I.tree path l) (J.tree path l')
  track (path : String) {l l' : Option String} : location l l' →
    Rel Eq (I.track l path) (J.track l' path)
  including (wanted : Wanted) (path : String) {l l' : Option String} : location l l' →
    Rel Eq (I.including wanted path l) (J.including wanted path l')
  remembered? {n : Node} : node n → Rel Eq (I.remembered? n) (J.remembered? n)
  remember {n : Node} (html : String) : node n → Rel Eq (I.remember n html) (J.remember n html)

namespace Coupling

variable {eng : Engine} {m m' : Type → Type} [Monad m] [Monad m'] {I : Interpretation eng m}
  {J : Interpretation eng m'} (C : Coupling I J) {α β : Type} {Q : β → β → Prop}

/-- Equal scopes stay equal when names are bound. -/
theorem extend_eq {s s' : Scope} (bindings : Scope) (h : s = s') :
    s.extend bindings = s'.extend bindings := by
  rw [h]

/-- The computations go together, with equal results. -/
def Same (x : m α) (y : m' α) : Prop :=
  C.Rel Eq x y

/-- The places go together. -/
def place (p q : Place) : Prop :=
  C.scope p.scope q.scope ∧ C.location p.location q.location

/-- The bodies go together. -/
def Bodies (b : Node → Place → m (String × Bool)) (b' : Node → Place → m' (String × Bool)) : Prop :=
  ∀ n p q, C.node n → C.place p q → C.Same (b n p) (b' n q)

theorem ret (a : α) : C.Same (Pure.pure a) (Pure.pure a) :=
  C.pure rfl

/-- After equal results, what follows is about one of them. -/
theorem andThen {x : m α} {y : m' α} {f : α → m β} {g : α → m' β} (hx : C.Same x y)
    (hf : ∀ a, C.Rel Q (f a) (g a)) : C.Rel Q (x >>= f) (y >>= g) := by
  refine C.bind hx fun a b hab => ?_
  obtain rfl := hab
  exact hf a

/-- What follows an outcome is about the result that it gives. -/
theorem ofCause_bind (r : Except Cause α) {f : α → m β} {g : α → m' β}
    (hf : ∀ a, r = .ok a → C.Rel Q (f a) (g a)) :
    C.Rel Q (I.ofCause r >>= f) (J.ofCause r >>= g) := by
  have hr : C.Rel (fun a b => a = b ∧ r = .ok a) (I.ofCause r) (J.ofCause r) := by
    cases r with
    | ok a => exact C.pure ⟨rfl, rfl⟩
    | error c =>
      refine C.fail ?_
      rintro ⟨_, _, h⟩
      cases h
  refine C.bind hr fun a b hab => ?_
  obtain ⟨rfl, ha⟩ := hab
  exact hf a ha

/-- The same complaint is made on both sides, unless it is of an unknown mixin. -/
theorem complain {c : Complaint} (position : Value) (hc : ∀ name, c ≠ .unknownMixin name) :
    C.Rel Q (I.complain c position) (J.complain c position) := by
  refine C.fail ?_
  rintro ⟨name, _, h⟩
  cases h
  exact hc name rfl

/-- Both sides run out of steps together. -/
theorem exhausted : C.Rel Q (I.fail .exhausted) (J.fail .exhausted) := by
  refine C.fail ?_
  rintro ⟨_, _, h⟩
  cases h

/-- A choice by the same condition is coupled if both ways are. -/
theorem ite (c : Prop) [Decidable c] {x x' : m β} {y y' : m' β} (h : c → C.Rel Q x y)
    (h' : ¬ c → C.Rel Q x' y') : C.Rel Q (if c then x else x') (if c then y else y') := by
  by_cases hc : c
  · simpa only [if_pos hc] using h hc
  · simpa only [if_neg hc] using h' hc

variable {b : Node → Place → m (String × Bool)} {b' : Node → Place → m' (String × Bool)}
  {p q : Place} {n : Node} (g : Group)

/-! ### Expressions and content -/

section

variable (hn : C.node n) (hp : C.place p q)
include hn hp

/-- A test of one of the node's expressions is the same on both sides. -/
theorem test {t : Value} (ht : t ∈ n.expressions) : C.Same (I.test p n t) (J.test q n t) :=
  C.andThen (C.evaluate hn ht hp.1) fun v => C.onHeap (.truth v)

/-- So is the content, if its expression is one of the node's. -/
theorem content (he : n.contentExpressions ⊆ n.expressions) :
    C.Same (I.content p n g) (J.content q n g) := by
  refine C.ite _ (fun _ => C.ofCause_bind _ fun _ _ => C.ret _) fun _ => ?_
  refine C.ofCause_bind _ fun s hs => ?_
  cases hx : Header.expression? s with
  | none => exact C.ret _
  | some e =>
    refine C.andThen (C.evaluate hn (he (Node.mem_contentExpressions hs hx)) hp.1) fun v => ?_
    refine C.andThen (C.onHeap (.embedded v)) fun t => ?_
    exact C.ofCause_bind _ fun _ _ => C.ret _

/-- So is a text. -/
theorem plainText (hr : Role.ofValue n.symbol = .ok .text) :
    C.Same (I.plainText p n g) (J.plainText q n g) := by
  have he : n.contentExpressions ⊆ n.expressions := by
    rw [Node.expressions_of_role hr]
    exact fun _ h => h
  refine C.andThen (C.content g hn hp he) fun (v, g) => ?_
  exact C.ofCause_bind _ fun _ _ => C.ret _

/-! ### Control -/

/-- What stands inside a node is the same if bodies are. -/
theorem inside (hb : C.Bodies b b') :
    C.Same (Interpretation.inside b p n) (Interpretation.inside b' q n) :=
  C.andThen (hb n p q hn hp) fun _ => C.ret _

/-- A condition tests its content. -/
theorem condition (hb : C.Bodies b b') (hr : Role.ofValue n.symbol = .ok .condition) :
    C.Same (I.condition b p n g) (J.condition b' q n g) := by
  have ht : n.content ∈ n.expressions := by
    rw [Node.expressions_of_role hr]
    exact List.mem_singleton_self _
  refine C.andThen (C.test hn hp ht) fun holds => ?_
  refine C.ite _ (fun _ => ?_) fun _ => C.ret _
  exact C.andThen (C.inside hn hp hb) fun _ => C.ret _

/-- An alternative tests what follows the word `if` in its content. -/
theorem alternativeHolds (hr : Role.ofValue n.symbol = .ok .alternative) :
    C.Same (I.alternativeHolds p n) (J.alternativeHolds q n) := by
  refine C.ofCause_bind _ fun s hs => ?_
  cases hc : Header.condition? s with
  | none => exact C.ret _
  | some c =>
    refine C.test hn hp ?_
    rw [Node.expressions_of_role hr]
    exact Node.mem_inContent hs (by simp [hc])

/-- So an alternative is the same on both sides. -/
theorem alternative (hb : C.Bodies b b') (ha : Role.isAlternative n.symbol = true) :
    C.Same (I.alternative b p n g) (J.alternative b' q n g) := by
  have hr := Role.isAlternative_iff.mp ha
  refine C.ite _ (fun _ => C.ret _) fun _ => ?_
  refine C.andThen (C.enter hn hp.1 (by simp [hr])) fun _ => ?_
  refine C.andThen (C.alternativeHolds hn hp hr) fun holds => ?_
  refine C.ite _ (fun _ => ?_) fun _ => C.ret _
  exact C.andThen (C.inside hn hp hb) fun _ => C.ret _

/-- The rounds of a loop, by induction on their number. -/
theorem whileHolds (hb : C.Bodies b b') (hr : Role.ofValue n.symbol = .ok .whileLoop)
    (limit : Nat) (written : String) :
    C.Same (I.whileHolds b p n limit written) (J.whileHolds b' q n limit written) := by
  have ht : n.content ∈ n.expressions := by
    rw [Node.expressions_of_role hr]
    exact List.mem_singleton_self _
  induction limit generalizing written with
  | zero => exact C.exhausted
  | succ limit ih =>
    refine C.andThen (C.test hn hp ht) fun holds => ?_
    refine C.ite _ (fun _ => ?_) fun _ => C.ret _
    exact C.andThen (hb n p q hn hp) fun _ => ih _

/-- The rounds of a loop over a collection, each in a scope of its own. -/
theorem forEach (hb : C.Bodies b b') (names : List String) (limit : Nat) (w : Walk)
    (written : String) :
    C.Same (I.forEach b p n names limit w written) (J.forEach b' q n names limit w written) := by
  induction limit generalizing w written with
  | zero => exact C.exhausted
  | succ limit ih =>
    refine C.andThen (C.onHeap (.next w)) fun r => ?_
    match r with
    | none => exact C.ret _
    | some ((key, item), w) =>
      refine C.andThen (hb n _ _ hn ⟨C.extend _ hp.1, hp.2⟩) fun _ => ?_
      exact ih _ _

omit hp hn in
/-- The header of a loop is cut alike, and its collection is an expression of the node. -/
theorem loopHeader :
    C.Rel (fun r r' => r = r' ∧ ∃ s l, Markup.searchable n.content = .ok s ∧
      Header.loop? s = some l ∧ r.2 = String.ofList l.2) (I.loopHeader n) (J.loopHeader n) := by
  refine C.ofCause_bind _ fun s hs => ?_
  have missing {R : List String × String → List String × String → Prop} :=
    C.complain (Q := R) (c := .noLoopVariable n.content.plain) n.position (by simp)
  cases hl : Header.loop? s with
  | none => exact missing
  | some l =>
    refine C.ite _ (fun _ => missing) fun _ => ?_
    exact C.pure ⟨rfl, s, l, hs, hl, rfl⟩

/-- So a loop over a collection is the same on both sides. -/
theorem forLoop (hb : C.Bodies b b') (hr : Role.ofValue n.symbol = .ok .forLoop) (limit : Nat) :
    C.Same (I.forLoop b limit p n g) (J.forLoop b' limit q n g) := by
  refine C.bind C.loopHeader ?_
  rintro ⟨names, e⟩ _ ⟨rfl, s, l, hs, hl, rfl⟩
  have he : .text (String.ofList l.2) ∈ n.expressions := by
    rw [Node.expressions_of_role hr]
    exact Node.mem_inContent hs (by simp [hl])
  refine C.andThen (C.evaluate hn he hp.1) fun collection => ?_
  refine C.andThen (C.onHeap (.start collection)) fun w => ?_
  exact C.andThen (C.forEach hn hp hb names limit w "") fun _ => C.ret _

/-! ### Mixins, plugins and includes -/

/-- Expressions of the node are evaluated alike, one after the other. -/
theorem evaluateAll (es : List Value) (he : es ⊆ n.expressions) :
    C.Same (I.evaluateAll p n es) (J.evaluateAll q n es) := by
  induction es with
  | nil => exact C.ret _
  | cons e es ih =>
    obtain ⟨he, hes⟩ := List.cons_subset.mp he
    refine C.andThen (C.evaluate hn he hp.1) fun v => ?_
    exact C.andThen (ih hes) fun _ => C.ret _

/-- The arguments of a call are such expressions. -/
theorem call (hb : C.Bodies b b') {name : String} (hr : Role.ofValue n.symbol = .ok (.call name)) :
    C.Same (I.call b p n g name) (J.call b' q n g name) := by
  have he : n.attributes.map (·.1) ⊆ n.expressions := by
    rw [Node.expressions_of_role hr]
    exact fun _ h => h
  refine C.bind (C.mixin name n.position) ?_
  rintro d _ ⟨rfl, hd⟩
  refine C.andThen (C.evaluateAll hn hp _ he) fun args => ?_
  exact C.andThen (C.inside hd ⟨C.extend _ hp.1, hp.2⟩ hb) fun _ => C.ret _

omit hn in
/-- A plugin that is run answers alike. -/
theorem runPlugin (name : String) : C.Same (I.runPlugin p n g name) (J.runPlugin q n g name) := by
  refine C.andThen (C.plugin name n.position) fun plugin => ?_
  refine C.ofCause_bind _ fun path _ => ?_
  refine C.andThen (C.text path hp.2) fun source => ?_
  exact C.andThen (C.transform name plugin source _) fun _ => C.ret _

omit hn in
/-- What is included is the same if the answers of the loaders are. -/
theorem inclusion (hb : C.Bodies b b') :
    C.Same (I.inclusion b p n g) (J.inclusion b' q n g) := by
  refine C.ofCause_bind _ fun path _ => ?_
  refine C.andThen (C.track path hp.2) fun _ => ?_
  refine C.ofCause_bind _ fun isTree _ => ?_
  refine C.ite _ (fun _ => ?_) fun _ => ?_
  · refine C.bind (C.tree path hp.2) ?_
    rintro ⟨t, l⟩ ⟨_, l'⟩ ⟨rfl, ht, hl⟩
    refine C.andThen (C.including .tree path hp.2) fun _ => ?_
    exact C.andThen (C.inside ht ⟨hp.1, hl⟩ hb) fun _ => C.ret _
  · refine C.andThen (C.including .text path hp.2) fun _ => ?_
    exact C.andThen (C.text path hp.2) fun _ => C.ret _

/-! ### Tags -/

omit hn hp in
/-- The value of an attribute is written alike on both sides. -/
theorem attributeValue (key v : Value) :
    C.Same (I.attributeValue key v) (J.attributeValue key v) := by
  refine C.andThen (C.onHeap (.written v)) fun written => ?_
  split
  · exact C.ite _ (fun _ => C.ofCause_bind _ fun _ _ => C.ret _) fun _ => C.ret _
  · refine C.fail ?_
    rintro ⟨_, _, h⟩
    cases h

/-- An attribute evaluates its value if that is no truth value. -/
theorem attributeOf (k v : Value) (he : ∀ e, Node.computed? v = some e → e ∈ n.expressions) :
    C.Same (I.attributeOf p n g k v) (J.attributeOf q n g k v) := by
  unfold Interpretation.attributeOf
  split
  · exact C.ret _
  · next hbool =>
    refine C.ite _ (fun _ => C.ret _) fun htruth => ?_
    -- only a value that is written out is one of the node's expressions
    have hcomputed : Node.computed? v = some v := by
      unfold Node.computed?
      split
      · exact absurd rfl (hbool _)
      · simpa using htruth
    refine C.andThen (C.evaluate hn (he v hcomputed) hp.1) fun w => ?_
    refine C.andThen (C.onHeap (.truth w)) fun isTrue => ?_
    refine C.ite _ (fun _ => C.ret _) fun _ => ?_
    exact C.andThen (C.attributeValue k w) fun _ => C.ret _

/-- So do all attributes, one after the other. -/
theorem attributesOf (as : List (Value × Value))
    (he : as.filterMap (fun a => Node.computed? a.2) ⊆ n.expressions) :
    C.Same (I.attributesOf p n as g) (J.attributesOf q n as g) := by
  induction as generalizing g with
  | nil => exact C.ret _
  | cons a as ih =>
    have ha (e : Value) (hc : Node.computed? a.2 = some e) : e ∈ n.expressions :=
      he (List.mem_filterMap.mpr ⟨a, List.mem_cons_self, hc⟩)
    have has : as.filterMap (fun a => Node.computed? a.2) ⊆ n.expressions := by
      intro e hm
      obtain ⟨c, hc, hce⟩ := List.mem_filterMap.mp hm
      exact he (List.mem_filterMap.mpr ⟨c, List.mem_cons_of_mem _ hc, hce⟩)
    refine C.andThen (C.attributeOf g hn hp _ _ ha) fun (_, g) => ?_
    exact C.andThen (ih g has) fun _ => C.ret _

/-- The markup of a tag is that of its attributes and of what stands inside. -/
theorem tagMarkup (hb : C.Bodies b b') (hr : Role.ofValue n.symbol = .ok .tag) :
    C.Same (I.tagMarkup b p n g) (J.tagMarkup b' q n g) := by
  have he := Node.expressions_of_role hr
  refine C.ofCause_bind _ fun t _ => ?_
  refine C.andThen (C.attributesOf g hn hp _ ?_) fun (as, g) => ?_
  · rw [he]
    exact List.subset_append_left _ _
  have hc : C.Same (I.tagContent p n g) (J.tagContent q n g) := by
    refine C.ite _ (fun _ => ?_) fun _ => C.ret _
    refine C.andThen (C.content g hn hp ?_) fun _ => C.ret _
    rw [he]
    exact List.subset_append_right _ _
  refine C.andThen hc fun (cs, g) => ?_
  have hbody : C.Same (Interpretation.tagBody b p n g) (Interpretation.tagBody b' q n g) := by
    refine C.ite _ (fun _ => C.ret _) fun _ => ?_
    exact C.andThen (hb n p q hn hp) fun _ => C.ret _
  refine C.andThen hbody fun (bs, g) => ?_
  refine C.ofCause_bind _ fun es _ => ?_
  exact C.ofCause_bind _ fun _ _ => C.ret _

/-- What a tag remembers is the same on both sides. -/
theorem tag (hb : C.Bodies b b') (hr : Role.ofValue n.symbol = .ok .tag) :
    C.Same (I.tag b p n g) (J.tag b' q n g) := by
  refine C.andThen (C.tagMarkup g hn hp hb hr) fun (html, g) => ?_
  refine C.ite _ (fun _ => ?_) fun _ => C.ret _
  exact C.andThen (C.remember html hn) fun _ => C.ret _

end

/-! ### Groups -/

section

variable [LawfulMonad m] [LawfulMonad m'] (hn : C.node n) (hp : C.place p q)
include hn hp

/-- A node that is executed, and what it does in its role. -/
theorem inRole (hb : C.Bodies b b') (limit : Nat) {r : Role} (hr : Role.ofValue n.symbol = .ok r) :
    C.Same (do I.enter n p; I.inRole b limit p n g r)
      (do J.enter n q; J.inRole b' limit q n g r) := by
  -- a definition is told of as one step: what is listed and what is defined belong together
  by_cases hd : ∃ name, r = .definition name
  · obtain ⟨name, rfl⟩ := hd
    have hdefine := C.andThen (C.define hn hp.1 hr) fun _ => C.ret (Value.text "", g.dynamic)
    rw [bind_assoc, bind_assoc] at hdefine
    exact hdefine
  · refine C.andThen (C.enter hn hp.1 ?_) fun _ => ?_
    · intro name h
      rw [hr] at h
      exact hd ⟨name, Except.ok.inj h⟩
    cases r with
    | condition => exact C.condition g hn hp hb hr
    | alternative => exact C.alternative g hn hp hb (Role.isAlternative_iff.mpr hr)
    | whileLoop => exact C.andThen (C.whileHolds hn hp hb hr limit "") fun _ => C.ret _
    | forLoop => exact C.forLoop g hn hp hb hr limit
    | each => exact C.complain _ (by simp)
    | comment => exact C.ofCause_bind _ fun _ _ => C.ret _
    | inclusion => exact C.inclusion g hp hb
    | text => exact C.plainText g hn hp hr
    | inlineCode => exact C.complain _ (by simp)
    | plugin name => exact C.runPlugin g hp name
    | call name => exact C.call g hn hp hb hr
    | definition name => exact absurd ⟨name, rfl⟩ hd
    | tag => exact C.tag g hn hp hb hr

/-- A node in any role is the same on both sides. -/
theorem node_same (hb : C.Bodies b b') (limit : Nat) :
    C.Same (I.node b limit p n g) (J.node b' limit q n g) := by
  refine C.ite _ (fun ha => C.alternative g hn hp hb ha) fun _ => ?_
  refine C.ite _ (fun _ => C.ret _) fun _ => ?_
  refine C.andThen (C.remembered? hn) fun html => ?_
  cases html with
  | some html => exact C.ret _
  | none => exact C.ofCause_bind _ fun r hr => C.inRole g hn hp hb limit hr

omit hn in
/-- So are siblings, one after the other. -/
theorem nodes (hb : C.Bodies b b') (limit : Nat) (ns : List Node) (hns : ∀ n ∈ ns, C.node n) :
    C.Same (I.nodes b limit p ns g) (J.nodes b' limit q ns g) := by
  induction ns generalizing g with
  | nil => exact C.ret _
  | cons n ns ih =>
    obtain ⟨hn, hns⟩ := List.forall_mem_cons.mp hns
    refine C.andThen (C.node_same g hn hp hb limit) fun (v, g) => ?_
    exact C.andThen (ih g hns) fun _ => C.ret _

omit hn in
/-- So is a group, with what it lacks at its end. -/
theorem group (hb : C.Bodies b b') (limit : Nat) (ns : List Node) (hns : ∀ n ∈ ns, C.node n) :
    C.Same (I.group b limit p ns) (J.group b' limit q ns) := by
  refine C.andThen (C.nodes Group.start hp hb limit ns hns) ?_
  rintro ⟨vs, isDynamic, pending⟩
  cases pending with
  | some n => exact C.complain (c := .missingElse) _ (by simp)
  | none => exact C.ofCause_bind _ fun _ _ => C.ret _

end

/-- **Renderings go together if the answers do.**  By induction on the depth. -/
theorem body [LawfulMonad m] [LawfulMonad m'] (depth : Nat) :
    C.Bodies (I.body depth) (J.body depth) := by
  induction depth with
  | zero => exact fun n p q _ _ => C.exhausted
  | succ depth ih =>
    exact fun n p q hn hp => C.group hp ih depth n.children (C.children hn)

end Coupling
end Trellis
