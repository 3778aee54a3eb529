import Trellis.Proofs.Evaluation.Variables
import Trellis.Proofs.Interpretation.Answers
import Trellis.Proofs.Interpretation.Coupling
import Trellis.Proofs.Interpretation.Throughout
import Trellis.Proofs.Sharing.Sessions
import Trellis.Samples

/-!
# Proofs — Evaluation — Unused

A name that no expression asks for does not matter.  A node avoids a name if the name is no variable
of an expression of the node (`Node.Avoids`).  Two renderings of nodes that avoid `x`, in scopes
that agree on all names but `x`, are coupled (`Unused.coupling`): step by step they answer the same
and leave worlds that differ in nothing but the scopes that were passed to the evaluator
(`World.unscoped`).

So it does not matter what a name is bound to that the tree, the mixins and the sources avoid, nor
whether it is bound at all (`Engine.render_unused`).
-/

namespace Trellis

open Rendering (exec exec_bind Matched Maintains Commutes)

/-- The name is no variable of an expression of the node. -/
def Node.Avoids (x : String) (n : Node) : Prop :=
  ∀ t ∈ n.expressions, x ∉ Expr.varsOf t

/-! ### Worlds without scopes -/

/-- The event without the scope that was passed. -/
def Event.unscoped : Event → Event
  | evaluated engine _ position text => evaluated engine [] position text
  | e => e

/-- The world without the scopes that were passed to the evaluator. -/
def World.unscoped (w : World) : World :=
  { w with events := w.events.map Event.unscoped }

/-- An event is without its scope among those without theirs. -/
theorem World.unscoped_push (w : World) (e : Event) :
    World.unscoped { w with events := w.events.push e } =
      { w.unscoped with events := w.unscoped.events.push e.unscoped } := by
  simp only [World.unscoped, Array.map_push]

/-- **The answers do not care for the scopes that were passed**, evaluations apart. -/
theorem Rendering.closed_unscoped : Rendering.Closed fun _ => Commutes World.unscoped where
  toInner := Rendering.inner_commutes id id fun _ _ _ _ => Array.map_push
  note e he := by
    have hsame : e.unscoped = e := by
      cases e with
      | evaluated => exact absurd trivial he
      | _ => rfl
    refine .modify fun w => ?_
    rw [World.unscoped_push, hsame]
  build b w := by
    have hnext : w.unscoped.nextNode = w.nextNode := rfl
    rw [exec_build, exec_build, hnext]
    cases b.run w.nextNode <;> rfl
  look hf h := .get hf fun w => h w _
  setSources _ _ := .modify fun _ => rfl
  record _ _ _ := .modify fun _ => rfl

/-- A definition has nothing to do with the scopes of events. -/
theorem Engine.commutes_define (eng : Engine) (name : String) (d : Mixin) :
    Commutes World.unscoped (eng.define name d) := by
  refine (Rendering.closed_unscoped.mixin? name).bind fun known => ?_
  refine (Rendering.closed_unscoped.note _ ?_).bind fun _ => .modify fun _ => rfl
  split <;> exact fun he => he

open Rendering (closed_unscoped)
open World.Throughout

/-! ### Two renderings -/

namespace Unused

variable {eng : Engine} {x : String} {α β : Type}

variable (eng x) in
/-- Nodes that the engine can come to avoid the name. -/
abbrev Avoiding (w : World) : Prop :=
  w.Throughout (Node.Avoids x) {eng.id} {k | eng.loader = some k}

variable (eng x) in
/-- Worlds that differ in the scopes that were passed only, and in which the name is avoided. -/
structure Alike (w v : World) : Prop where
  unscoped : v.unscoped = w.unscoped
  avoiding : Avoiding eng x w

variable (eng x) in
/-- From worlds that differ in the scopes only, both computations end alike. -/
def Lockstep (R : α → α → Prop) (y z : Rendering α) : Prop :=
  ∀ w v, Alike eng x w v →
    Matched R (exec y w).1 (exec z v).1 ∧ Alike eng x (exec y w).2 (exec z v).2

namespace Lockstep

variable {R : α → α → Prop} {Q : β → β → Prop}

theorem pure {a b : α} (h : R a b) : Lockstep eng x R (Pure.pure a) (Pure.pure b) :=
  fun _ _ hw => ⟨.ok h, hw⟩

theorem throw (f : Fault) : Lockstep eng x R (throw f) (throw f) :=
  fun _ _ hw => ⟨.error f, hw⟩

/-- Computations in a row keep in step as each does. -/
theorem bind {y z : Rendering α} {f g : α → Rendering β} (hy : Lockstep eng x R y z)
    (hf : ∀ a b, R a b → Lockstep eng x Q (f a) (g b)) :
    Lockstep eng x Q (y >>= f) (z >>= g) := by
  intro w v hw
  obtain ⟨hm, hv⟩ := hy w v hw
  rw [exec_bind, exec_bind]
  generalize exec y w = o at hm hv ⊢
  generalize exec z v = o' at hm hv ⊢
  obtain ⟨r, w₁⟩ := o
  obtain ⟨r', v₁⟩ := o'
  cases hm with
  | error e => exact ⟨.error e, hv⟩
  | ok h => exact hf _ _ h w₁ v₁ hv

/-- What never looks at the scopes that were passed, and leaves the name avoided. -/
theorem of_commutes {P : α → Prop} {y : Rendering α} (hc : Commutes World.unscoped y)
    (hm : Maintains (Avoiding eng x) P y) :
    Lockstep eng x (fun a b => a = b ∧ P a) y y := by
  intro w v hw
  -- both end as the world without scopes does, which is the same
  have he : ((exec y v).1, (exec y v).2.unscoped) = ((exec y w).1, (exec y w).2.unscoped) := by
    rw [← hc v, ← hc w, hw.unscoped]
  obtain ⟨h, hP⟩ := hm w hw.avoiding
  obtain ⟨hr, hu⟩ := Prod.mk.inj he
  refine ⟨?_, hu, h⟩
  rw [hr]
  exact ((Matched.same _).and hP).mono fun _ _ h => ⟨h.2, h.1⟩

/-- What keeps in step more closely keeps in step. -/
theorem mono {S : α → α → Prop} {y z : Rendering α} (hy : Lockstep eng x R y z)
    (h : ∀ a b, R a b → S a b) : Lockstep eng x S y z := by
  intro w v hw
  obtain ⟨hm, hv⟩ := hy w v hw
  exact ⟨hm.mono h, hv⟩

/-- The same if nothing is to be said of the results. -/
theorem same {P : α → Prop} {y : Rendering α} (hc : Commutes World.unscoped y)
    (hm : Maintains (Avoiding eng x) P y) : Lockstep eng x Eq y y :=
  (of_commutes hc hm).mono fun _ _ h => h.1

end Lockstep

variable {builtins : Scope} (h : eng.evaluation = Expr.evaluation builtins)
include h

/-- The evaluator is passed other scopes, and gives the same value. -/
theorem evaluate_lockstep {n : Node} {s s' : Scope} {t : Value} (hn : n.Avoids x)
    (ht : t ∈ n.expressions) (hs : Scope.Agree x s s') :
    Lockstep eng x Eq (eng.evaluate s n.position t) (eng.evaluate s' n.position t) := by
  have hvalue : eng.evaluation s n.position t = eng.evaluation s' n.position t := by
    rw [h]
    exact Expr.evaluation_congr n.position (hs.names builtins (hn t ht))
  have hnote : Lockstep eng x Eq (Rendering.note (.evaluated eng.id s n.position t))
      (Rendering.note (.evaluated eng.id s' n.position t)) := by
    intro w v hw
    refine ⟨.ok rfl, ?_, hw.avoiding.congr rfl rfl⟩
    rw [Rendering.exec_note, Rendering.exec_note, World.unscoped_push, World.unscoped_push,
      hw.unscoped]
    rfl
  refine hnote.bind fun _ _ _ => ?_
  rw [hvalue]
  exact .same (closed_unscoped.onHeap _) (maintains_onHeap _)

/-- **Renderings in scopes that agree but for an avoided name.**  What the engine answers in the one
it answers in the other. -/
def coupling : Coupling eng.interpretation eng.interpretation where
  node := Node.Throughout (Node.Avoids x)
  scope := Scope.Agree x
  location := Eq
  Rel := Lockstep eng x
  children := Node.Throughout.children
  extend bindings hs := hs.extend bindings
  pure := Lockstep.pure
  bind := Lockstep.bind
  fail _ := Lockstep.throw _
  onHeap _ := .same (closed_unscoped.onHeap _) (maintains_onHeap _)
  enter _ _ _ := Lockstep.pure rfl
  define hn _ _ :=
    .same (eng.commutes_define _ _) (maintains_define (Set.mem_singleton _) _ hn)
  evaluate hn ht hs := evaluate_lockstep h hn.self ht hs
  mixin name position :=
    .of_commutes (closed_unscoped.mixin _ _) (maintains_mixin (Set.mem_singleton _) name position)
  plugin name position := .same (closed_unscoped.plugin _ _) (maintains_plugin name position)
  transform name q source attributes :=
    .same (closed_unscoped.transform _ _ _ _) (maintains_transform name q source attributes)
  text path _ _ hl := by
    obtain rfl := hl
    exact .same (closed_unscoped.text _ _) (maintains_text (fun _ h => h) path _)
  tree path _ _ hl := by
    obtain rfl := hl
    refine (Lockstep.of_commutes (closed_unscoped.tree _ _)
      (maintains_tree (fun _ h => h) path _)).mono ?_
    rintro r _ ⟨rfl, hr⟩
    exact ⟨rfl, hr, rfl⟩
  track path _ _ hl := by
    obtain rfl := hl
    exact .same (closed_unscoped.track _ _) (maintains_track _ path)
  including wanted path _ _ hl := by
    obtain rfl := hl
    exact .same (closed_unscoped.including _ _ _) (maintains_including wanted path _)
  remembered? _ := .same (closed_unscoped.remembered? _) (maintains_remembered? _)
  remember html _ := .same (closed_unscoped.remember _ _) (maintains_remember _ html)

end Unused

/-- **A name that is not asked for does not matter.**  The expressions of an engine are those of the
expression language, and a name is no variable of any expression in the tree, in the mixins of the
engine and in the trees of its loader.  Then a rendering in a scope and one in the scope with the
name bound to any value end alike: with the same outcome, and in worlds that differ in nothing but
the scopes that the evaluator was passed. -/
theorem Engine.render_unused {eng : Engine} {builtins : Scope}
    (heval : eng.evaluation = Expr.evaluation builtins) {x : String} {d : Draft}
    (hd : d.Throughout (Node.Avoids x)) {w : World}
    (hw : w.Throughout (Node.Avoids x) {eng.id} {k | eng.loader = some k}) (depth : Nat)
    (scope : Scope) (v : Value) (location : Option String) :
    (exec (eng.renderWithin depth d (scope.extend [(.text x, v)]) location) w).1 =
        (exec (eng.renderWithin depth d scope location) w).1 ∧
      (exec (eng.renderWithin depth d (scope.extend [(.text x, v)]) location) w).2.unscoped =
        (exec (eng.renderWithin depth d scope location) w).2.unscoped := by
  have hrender : Unused.Lockstep eng x Eq (eng.renderWithin depth d scope location)
      (eng.renderWithin depth d (scope.extend [(.text x, v)]) location) := by
    by_cases hno : d = .value .none
    · subst hno
      exact .throw _
    · rw [Session.renderWithin_eq hno, Session.renderWithin_eq hno]
      refine (Unused.Lockstep.of_commutes (closed_unscoped.build _) (maintains_build hd)).bind ?_
      rintro n _ ⟨rfl, hn⟩
      have hbody := (Unused.coupling heval).body depth n ⟨scope, location⟩
        ⟨scope.extend [(.text x, v)], location⟩ hn ⟨Scope.Agree.bind scope x v, rfl⟩
      rw [eng.interpretation_body] at hbody
      refine hbody.bind fun _ _ hr => ?_
      rw [hr]
      exact .pure rfl
  obtain ⟨hm, hv⟩ := hrender w w ⟨rfl, hw⟩
  exact ⟨hm.eq.symm, hv.unscoped⟩

namespace Unused

open Samples (engine node leaf)

/-- The items of `xs`, under the names `k` and `v`. -/
def listing : Node :=
  node 0 "" "" [node 1 "for" "k, v in xs" [leaf 2 "|" "= v"]]

/-- The listing avoids the name throughout. -/
theorem throughout_listing : listing.Throughout (Node.Avoids "k") := by
  have avoids {n : Node} (s name : String) (hn : n.expressions = [.text s])
      (hs : Expr.varsOf (.text s) = [name]) (hk : name ≠ "k") : n.Avoids "k" := by
    intro t ht hx
    obtain rfl : t = .text s := by simpa [hn] using ht
    rw [hs, List.mem_singleton] at hx
    exact hk hx.symm
  refine .intro (fun t ht => by cases ht) fun loop hloop => ?_
  obtain rfl := List.mem_singleton.mp hloop
  refine .intro (avoids "xs" "xs" (by cbv) (by cbv) (by decide)) fun item hitem => ?_
  obtain rfl := List.mem_singleton.mp hitem
  refine .intro (avoids "v" "v" (by cbv) (by cbv) (by decide)) fun c hc => ?_
  cases hc

/-- The key of the loop is not asked for, so it may be bound outside as well. -/
theorem render_listing :
    (exec ((engine 0).renderWithin 5 (.finished listing)
      (Scope.extend [(.text "xs", .list [.text "a", .text "b"])] [(.text "k", .int 7)]) none)
      ((Session.fresh 3).enter 0)).1 = .ok " a b" := by
  have hplain : (exec ((engine 0).renderWithin 5 (.finished listing)
      [(.text "xs", .list [.text "a", .text "b"])] none) ((Session.fresh 3).enter 0)).1 =
      .ok " a b" := by cbv
  rw [← hplain]
  refine (Engine.render_unused rfl (Draft.throughout_finished.mpr throughout_listing) ⟨?_, ?_⟩
    5 _ _ _).1
  · intro i _ e he
    simp [Session.fresh, Session.enter, World.empty, World.mixinsOf] at he
  · intro k hk
    cases hk

end Unused
end Trellis
