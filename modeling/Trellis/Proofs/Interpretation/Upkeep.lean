import Trellis.Proofs.Interpretation.Renderer

/-!
# Proofs — Interpretation — Upkeep

What a rendering keeps while it comes to more and more nodes.  An `Upkeep` says which computations
keep it over a set of nodes that may be rendered; the set may grow on the way, since a tree that is
included brings nodes of its own.  It is closed under sequences, and all answers keep it but one:
what is remembered is left to those who know of which node it is.

So each construct keeps it, given bodies that do (`Upkeep.inRole`).  Tags are kept up to their
markup (`Upkeep.tagMarkup`), before it is remembered.
-/

namespace Trellis

/-- What computations keep over a set of nodes.  `Keeps S P x` says that the computation `x` does
when the nodes in `S` may be rendered, and that its result satisfies `P` for some larger set. -/
structure Upkeep {eng : Engine} {m : Type → Type} [Monad m] (I : Interpretation eng m) where
  Keeps {α : Type} : Set Node → (Set Node → α → Prop) → m α → Prop
  pure {α : Type} {S : Set Node} {P : Set Node → α → Prop} {a : α} : P S a → Keeps S P (Pure.pure a)
  bind {α β : Type} {S : Set Node} {P : Set Node → α → Prop} {Q : Set Node → β → Prop} {x : m α}
    {f : α → m β} : Keeps S P x → (∀ T a, S ⊆ T → P T a → Keeps T Q (f a)) → Keeps S Q (x >>= f)
  fail {α : Type} {S : Set Node} {P : Set Node → α → Prop} (f : Fault) : Keeps S P (I.fail f)
  onHeap {α : Type} {S : Set Node} (a : Action α) : Keeps S (fun _ _ => True) (I.onHeap a)
  enter {S : Set Node} {n : Node} (p : Place) : n ∈ S → Keeps S (fun _ _ => True) (I.enter n p)
  evaluate {S : Set Node} (s : Scope) (position text : Value) :
    Keeps S (fun _ _ => True) (I.evaluate s position text)
  mixin {S : Set Node} (name : String) (position : Value) :
    Keeps S (fun T d => d.body ∈ T) (I.mixin name position)
  define {S : Set Node} (name : String) {d : Mixin} :
    d.body ∈ S → Keeps S (fun _ _ => True) (I.define name d)
  plugin {S : Set Node} (name : String) (position : Value) :
    Keeps S (fun _ _ => True) (I.plugin name position)
  transform {S : Set Node} (name : String) (q : Plugin) (source : String)
    (attributes : List (Value × Value)) :
    Keeps S (fun _ _ => True) (I.transform name q source attributes)
  text {S : Set Node} (path : String) (location : Option String) :
    Keeps S (fun _ _ => True) (I.text path location)
  tree {S : Set Node} (path : String) (location : Option String) :
    Keeps S (fun T r => r.1 ∈ T) (I.tree path location)
  track {S : Set Node} (location : Option String) (path : String) :
    Keeps S (fun _ _ => True) (I.track location path)
  including {S : Set Node} (wanted : Wanted) (path : String) (location : Option String) :
    Keeps S (fun _ _ => True) (I.including wanted path location)
  remembered? {S : Set Node} (n : Node) : Keeps S (fun _ _ => True) (I.remembered? n)

namespace Upkeep

variable {eng : Engine} {m : Type → Type} [Monad m] {I : Interpretation eng m} (U : Upkeep I)
  {α β : Type} {S : Set Node}

/-- The computation keeps it, whatever its result. -/
def Safe (S : Set Node) (x : m α) : Prop :=
  U.Keeps S (fun _ _ => True) x

/-- The bodies of nodes that may be rendered keep it. -/
def Bodies (b : Node → Place → m (String × Bool)) : Prop :=
  ∀ S n p, n ∈ S → U.Safe S (b n p)

/-- A result alone changes nothing. -/
theorem ret (a : α) : U.Safe S (Pure.pure a : m α) :=
  U.pure trivial

/-- What follows any result. -/
theorem andThen {P : Set Node → α → Prop} {x : m α} {f : α → m β} (hx : U.Keeps S P x)
    (hf : ∀ T a, S ⊆ T → U.Safe T (f a)) : U.Safe S (x >>= f) :=
  U.bind hx fun T a hST _ => hf T a hST

/-- The outcome of an operation keeps it. -/
theorem ofCause (r : Except Cause α) : U.Safe S (I.ofCause r) := by
  cases r with
  | ok a => exact U.ret a
  | error c => exact U.fail _

/-- A choice keeps it if both ways do. -/
theorem ite (c : Prop) [Decidable c] {x y : m α} (hx : U.Safe S x) (hy : U.Safe S y) :
    U.Safe S (if c then x else y) := by
  split
  · exact hx
  · exact hy

variable {b : Node → Place → m (String × Bool)} (p : Place) {n : Node} (g : Group)

/-! ### Expressions and content -/

/-- A test evaluates, and keeps it. -/
theorem test (t : Value) : U.Safe S (I.test p n t) :=
  U.andThen (U.evaluate _ _ _) fun _ _ _ => U.onHeap _

/-- So does the content of a node. -/
theorem content : U.Safe S (I.content p n g) := by
  refine U.ite _ (U.andThen (U.ofCause _) fun _ _ _ => U.ret _) ?_
  refine U.andThen (U.ofCause _) fun T s _ => ?_
  cases Header.expression? s with
  | none => exact U.ret _
  | some e =>
    refine U.andThen (U.evaluate _ _ _) fun _ _ _ => U.andThen (U.onHeap _) fun _ _ _ => ?_
    exact U.andThen (U.ofCause _) fun _ _ _ => U.ret _

/-- So does a text. -/
theorem plainText : U.Safe S (I.plainText p n g) :=
  U.andThen (U.content p g) fun _ _ _ => U.andThen (U.ofCause _) fun _ _ _ => U.ret _

theorem comment : U.Safe S (I.comment n g) :=
  U.andThen (U.ofCause _) fun _ _ _ => U.ret _

/-! ### Control -/

section

variable (hb : U.Bodies b) (hn : n ∈ S)
include hb hn

/-- What stands inside a node keeps it, since bodies do. -/
theorem inside : U.Safe S (Interpretation.inside b p n) :=
  U.andThen (hb S n p hn) fun _ _ _ => U.ret _

/-- A condition keeps it. -/
theorem condition : U.Safe S (I.condition b p n g) := by
  refine U.andThen (U.test p n.content) fun T _ hST => ?_
  exact U.ite _ (U.andThen (U.inside p hb (hST hn)) fun _ _ _ => U.ret _) (U.ret _)

omit hb hn in
/-- So does the test of an alternative. -/
theorem alternativeHolds : U.Safe S (I.alternativeHolds p n) := by
  refine U.andThen (U.ofCause _) fun T s _ => ?_
  cases Header.condition? s with
  | none => exact U.ret _
  | some c => exact U.test p _

/-- An alternative keeps it. -/
theorem alternative : U.Safe S (I.alternative b p n g) := by
  refine U.ite _ (U.ret _) ?_
  refine U.andThen (U.enter p hn) fun T _ hST => ?_
  refine U.andThen (U.alternativeHolds p) fun V _ hTV => ?_
  exact U.ite _ (U.andThen (U.inside p hb (hTV (hST hn))) fun _ _ _ => U.ret _) (U.ret _)

/-- The rounds of a loop, by induction on their number. -/
theorem whileHolds (limit : Nat) (written : String) :
    U.Safe S (I.whileHolds b p n limit written) := by
  induction limit generalizing S written with
  | zero => exact U.fail _
  | succ limit ih =>
    refine U.andThen (U.test p n.content) fun T _ hST => ?_
    refine U.ite _ (U.andThen (hb T n p (hST hn)) fun V _ hTV => ?_) (U.ret _)
    exact ih (hTV (hST hn)) _

/-- The rounds of a loop over a collection, by induction on their number. -/
theorem forEach (names : List String) (limit : Nat) (w : Walk) (written : String) :
    U.Safe S (I.forEach b p n names limit w written) := by
  induction limit generalizing S w written with
  | zero => exact U.fail _
  | succ limit ih =>
    refine U.andThen (U.onHeap _) fun T r hST => ?_
    match r with
    | none => exact U.ret _
    | some ((key, item), w) =>
      exact U.andThen (hb T n _ (hST hn)) fun V _ hTV => ih (hTV (hST hn)) _ _

omit hb hn in
/-- The header of a loop keeps it. -/
theorem loopHeader : U.Safe S (I.loopHeader n) := by
  refine U.andThen (U.ofCause _) fun T s _ => ?_
  cases Header.loop? s with
  | none => exact U.fail _
  | some l => exact U.ite _ (U.fail _) (U.ret _)

/-- A loop keeps it over all its rounds. -/
theorem forLoop (limit : Nat) : U.Safe S (I.forLoop b limit p n g) := by
  refine U.andThen U.loopHeader fun T r hST => ?_
  refine U.andThen (U.evaluate _ _ _) fun V collection hTV => ?_
  refine U.andThen (U.onHeap _) fun W walk hVW => ?_
  have hnW : n ∈ W := hVW (hTV (hST hn))
  exact U.andThen (U.forEach p hb hnW _ limit walk "") fun _ _ _ => U.ret _

end

/-! ### Mixins, plugins and includes -/

/-- A definition keeps it if the node may be rendered, and its body with it. -/
theorem definition (hn : n ∈ S) (name : String) : U.Safe S (I.definition n g name) :=
  U.andThen (U.define name hn) fun _ _ _ => U.ret _

/-- Evaluations in a row keep it. -/
theorem evaluateAll (es : List Value) : U.Safe S (I.evaluateAll p n es) := by
  induction es generalizing S with
  | nil => exact U.ret _
  | cons e es ih =>
    exact U.andThen (U.evaluate _ _ _) fun _ _ _ => U.andThen ih fun _ _ _ => U.ret _

/-- The body of a mixin may be rendered. -/
theorem call (hb : U.Bodies b) (name : String) : U.Safe S (I.call b p n g name) := by
  refine U.bind (U.mixin name _) fun T d _ hd => ?_
  refine U.andThen (U.evaluateAll p _) fun V args hTV => ?_
  exact U.andThen (U.inside _ hb (hTV hd)) fun _ _ _ => U.ret _

/-- A plugin that is run keeps it. -/
theorem runPlugin (name : String) : U.Safe S (I.runPlugin p n g name) := by
  refine U.andThen (U.plugin name _) fun _ q _ => U.andThen (U.ofCause _) fun _ path _ => ?_
  refine U.andThen (U.text path _) fun _ source _ => ?_
  exact U.andThen (U.transform name q source _) fun _ _ _ => U.ret _

/-- A tree that is included may be rendered from then on. -/
theorem inclusion (hb : U.Bodies b) : U.Safe S (I.inclusion b p n g) := by
  refine U.andThen (U.ofCause _) fun _ path _ => U.andThen (U.track _ path) fun _ _ _ => ?_
  refine U.andThen (U.ofCause _) fun T isTree _ => U.ite _ ?_ ?_
  · refine U.bind (U.tree path _) fun V r _ hr => ?_
    refine U.andThen (U.including .tree path _) fun W _ hVW => ?_
    exact U.andThen (U.inside _ hb (hVW hr)) fun _ _ _ => U.ret _
  · refine U.andThen (U.including .text path _) fun _ _ _ => ?_
    exact U.andThen (U.text path _) fun _ _ _ => U.ret _

/-! ### Tags -/

theorem attributeValue (key v : Value) : U.Safe S (I.attributeValue key v) := by
  refine U.andThen (U.onHeap _) fun T written _ => ?_
  split
  · exact U.ite _ (U.andThen (U.ofCause _) fun _ _ _ => U.ret _) (U.ret _)
  · exact U.fail _

/-- An attribute keeps it. -/
theorem attributeOf (k v : Value) : U.Safe S (I.attributeOf p n g k v) := by
  unfold Interpretation.attributeOf
  split
  · exact U.ret _
  · refine U.ite _ (U.ret _) ?_
    refine U.andThen (U.evaluate _ _ _) fun _ w _ => U.andThen (U.onHeap _) fun _ _ _ => ?_
    exact U.ite _ (U.ret _) (U.andThen (U.attributeValue k w) fun _ _ _ => U.ret _)

/-- So do attributes in a row. -/
theorem attributesOf (as : List (Value × Value)) : U.Safe S (I.attributesOf p n as g) := by
  induction as generalizing S g with
  | nil => exact U.ret _
  | cons a as ih =>
    refine U.andThen (U.attributeOf p g _ _) fun _ r _ => ?_
    exact U.andThen (ih r.2) fun _ _ _ => U.ret _

theorem tagContent : U.Safe S (I.tagContent p n g) :=
  U.ite _ (U.andThen (U.content p g) fun _ _ _ => U.ret _) (U.ret _)

/-- What stands inside a tag keeps it. -/
theorem tagBody (hb : U.Bodies b) (hn : n ∈ S) : U.Safe S (Interpretation.tagBody b p n g) :=
  U.ite _ (U.ret _) (U.andThen (hb S n p hn) fun _ _ _ => U.ret _)

/-- So does its markup, up to where it is remembered. -/
theorem tagMarkup (hb : U.Bodies b) (hn : n ∈ S) : U.Safe S (I.tagMarkup b p n g) := by
  refine U.andThen (U.ofCause _) fun T t hST => ?_
  refine U.andThen (U.attributesOf p g _) fun V as hTV => ?_
  refine U.andThen (U.tagContent p _) fun W cs hVW => ?_
  have hnW : n ∈ W := hVW (hTV (hST hn))
  refine U.andThen (U.tagBody p _ hb hnW) fun _ bs _ => ?_
  exact U.andThen (U.ofCause _) fun _ es _ => U.andThen (U.ofCause _) fun _ _ _ => U.ret _

/-- **Each construct keeps it**, except that nothing is said of what is remembered of a tag. -/
theorem inRole (hb : U.Bodies b) (hn : n ∈ S) (limit : Nat) {r : Role} (hr : r ≠ .tag) :
    U.Safe S (I.inRole b limit p n g r) := by
  cases r with
  | condition => exact U.condition p g hb hn
  | alternative => exact U.alternative p g hb hn
  | whileLoop => exact U.andThen (U.whileHolds p hb hn limit "") fun _ _ _ => U.ret _
  | forLoop => exact U.forLoop p g hb hn limit
  | each => exact U.fail _
  | comment => exact U.comment g
  | inclusion => exact U.inclusion p g hb
  | text => exact U.plainText p g
  | inlineCode => exact U.fail _
  | plugin name => exact U.runPlugin p g name
  | call name => exact U.call p g hb name
  | definition name => exact U.definition g hn name
  | tag => exact absurd rfl hr

end Upkeep
end Trellis
