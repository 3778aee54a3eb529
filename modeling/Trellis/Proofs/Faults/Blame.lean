import Trellis.Proofs.Interpretation.Answers
import Trellis.Proofs.Interpretation.Coupling

/-!
# Proofs — Faults — Blame

Which node was being rendered when a rendering failed.  `Engine.blame` renders as the engine does,
and its failures come with the innermost node in whose rendering they arose: a node is blamed for
what fails while it is rendered, unless one of its children is, or one of a mixin that it calls.

What is blamed is told of the rendering of the engine itself (`Engine.exec_blame`).
-/

namespace Trellis

open Rendering (exec exec_bind Matched)

/-- Renderings whose failures may blame a node. -/
abbrev Blaming := ExceptT (Fault × Option Node) (StateM World)

namespace Blaming

variable {α β : Type}

/-- What a computation does with a world. -/
def exec (x : Blaming α) (w : World) : Except (Fault × Option Node) α × World :=
  (ExceptT.run x : StateM World (Except (Fault × Option Node) α)).run w

/-- A failing first step ends the computation, with the node that it blames. -/
theorem exec_bind (x : Blaming α) (f : α → Blaming β) (w : World) :
    exec (x >>= f) w =
      match exec x w with
      | (.ok a, w') => exec (f a) w'
      | (.error e, w') => (.error e, w') := by
  rw [exec, ExceptT.run_bind, StateT.run_bind, exec]
  rcases StateT.run (ExceptT.run x) w with ⟨_ | _, _⟩ <;> rfl

/-- The computation as a part of the rendering of a node, which is blamed if no other one is. -/
def within (n : Node) (x : Blaming α) : Blaming α :=
  ExceptT.adapt (fun f => (f.1, f.2.or (some n))) x

/-- Within a node, a failure that blames no node yet blames this one. -/
theorem exec_within (n : Node) (x : Blaming α) (w : World) :
    exec (within n x) w =
      ((exec x w).1.mapError fun f => (f.1, f.2.or (some n)), (exec x w).2) := rfl

end Blaming

/-- The computation, whose failures blame nobody. -/
def Rendering.unblamed {α : Type} (x : Rendering α) : Blaming α :=
  ExceptT.mk fun w => ((exec x w).1.mapError (·, none), (exec x w).2)

/-- A computation that is taken over from renderings blames no node. -/
theorem Rendering.exec_unblamed {α : Type} (x : Rendering α) (w : World) :
    x.unblamed.exec w = ((exec x w).1.mapError (·, none), (exec x w).2) := rfl

namespace Engine

variable (eng : Engine)

/-- What the engine answers, which blames nobody. -/
def blaming : Interpretation eng Blaming :=
  eng.interpretation.map Rendering.unblamed

section

variable (inner : Node → Place → Blaming (String × Bool)) (limit : Nat) (p : Place)

/-- Nodes one after the other, each of which is blamed for its own failures. -/
def blameNodes : List Node → Group → Blaming (List Value × Group)
  | [], g => pure ([], g)
  | n :: ns, g => do
    let (v, g) ← (eng.blaming.node inner limit p n g).within n
    let (vs, g) ← blameNodes ns g
    return (v :: vs, g)

/-- A group of siblings. -/
def blameGroup (ns : List Node) : Blaming (String × Bool) := do
  let (vs, g) ← eng.blameNodes inner limit p ns Group.start
  match g.pending with
  | some n => eng.blaming.complain .missingElse n.position
  | none => return (← eng.blaming.ofCause (Markup.join vs), g.isDynamic)

end

/-- The children of a node, at most `depth` groups deep and `depth` times in a loop. -/
def blameBody : (depth : Nat) → Node → Place → Blaming (String × Bool)
  | 0 => fun _ _ => eng.blaming.fail .exhausted
  | depth + 1 => fun n p => eng.blameGroup (blameBody depth) depth p n.children

/-- The markup of a tree, or a failure and the node to blame. -/
def blame (depth : Nat) (tree : Node) (scope : Scope) (location : Option String) :
    Blaming String :=
  Blaming.within tree do return (← eng.blameBody depth tree ⟨scope, location⟩).1

end Engine

/-! ### The engine and whom it blames -/

namespace Blaming

variable {eng : Engine} {α β : Type}

/-- The blaming computation ends as the other one does. -/
def Follows (R : α → α → Prop) (x : Rendering α) (y : Blaming α) : Prop :=
  ∀ w, Matched R (Rendering.exec x w).1 ((y.exec w).1.mapError (·.1)) ∧
    (y.exec w).2 = (Rendering.exec x w).2

namespace Follows

variable {R : α → α → Prop} {Q : β → β → Prop}

/-- Results that correspond are followed by themselves. -/
theorem pure {a b : α} (h : R a b) : Follows R (Pure.pure a) (Pure.pure b) :=
  fun _ => ⟨.ok h, rfl⟩

/-- A computation is followed by itself, with nobody blamed. -/
theorem unblamed (x : Rendering α) : Follows Eq x x.unblamed := by
  intro w
  rw [Rendering.exec_unblamed]
  rcases Rendering.exec x w with ⟨f | a, w'⟩
  · exact ⟨.error f, rfl⟩
  · exact ⟨.ok rfl, rfl⟩

theorem throw (f : Fault) : Follows R (throw f) (throw f : Rendering α).unblamed :=
  fun _ => ⟨.error f, rfl⟩

/-- What corresponds more closely corresponds. -/
theorem mono {S : α → α → Prop} {x : Rendering α} {y : Blaming α} (hx : Follows R x y)
    (h : ∀ a b, R a b → S a b) : Follows S x y :=
  fun w => ⟨(hx w).1.mono h, (hx w).2⟩

/-- Computations that are followed step by step are followed. -/
theorem bind {x : Rendering α} {y : Blaming α} {f : α → Rendering β} {g : α → Blaming β}
    (hx : Follows R x y) (hf : ∀ a b, R a b → Follows Q (f a) (g b)) :
    Follows Q (x >>= f) (y >>= g) := by
  intro w
  have h := hx w
  rw [Rendering.exec_bind, Blaming.exec_bind]
  generalize Rendering.exec x w = o at h ⊢
  generalize y.exec w = o' at h ⊢
  obtain ⟨r, w₁⟩ := o
  obtain ⟨r', w₂⟩ := o'
  obtain ⟨hm, rfl : w₂ = w₁⟩ := h
  cases r' with
  | error e =>
    have hm : Matched R r (.error e.1) := hm
    cases hm
    exact ⟨.error e.1, rfl⟩
  | ok b =>
    have hm : Matched R r (.ok b) := hm
    cases hm with
    | ok hab => exact hf _ _ hab w₂

/-- After equal results, what follows is about one of them. -/
theorem andThen {x : Rendering α} {y : Blaming α} {f : α → Rendering β} {g : α → Blaming β}
    (hx : Follows Eq x y) (hf : ∀ a, Follows Q (f a) (g a)) : Follows Q (x >>= f) (y >>= g) := by
  refine bind hx fun a b hab => ?_
  obtain rfl := hab
  exact hf a

/-- Blaming makes no difference. -/
theorem within (n : Node) {x : Rendering α} {y : Blaming α} (h : Follows R x y) :
    Follows R x (y.within n) := by
  intro w
  obtain ⟨hm, hw⟩ := h w
  rw [exec_within]
  refine ⟨?_, hw⟩
  cases hr : (y.exec w).1 <;> rw [hr] at hm <;> exact hm

end Follows

/-- **Blaming goes with the rendering.** -/
def coupling (eng : Engine) : Coupling eng.interpretation eng.blaming where
  node _ := True
  scope := Eq
  location := Eq
  Rel := Follows
  children _ _ _ := trivial
  extend := Coupling.extend_eq
  pure := .pure
  bind := .bind
  fail _ := .throw _
  onHeap _ := .unblamed _
  enter _ _ _ := .unblamed _
  define _ _ _ := .andThen (.unblamed _) fun _ => .unblamed _
  evaluate _ _ hs := hs ▸ .unblamed _
  mixin _ _ := (Follows.unblamed _).mono fun _ _ h => ⟨h, trivial⟩
  plugin _ _ := .unblamed _
  transform _ _ _ _ := .unblamed _
  text _ _ _ hl := hl ▸ .unblamed _
  tree _ _ _ hl := hl ▸ (Follows.unblamed _).mono fun _ _ h => ⟨h ▸ rfl, trivial, h ▸ rfl⟩
  track _ _ _ hl := hl ▸ .unblamed _
  including _ _ _ _ hl := hl ▸ .unblamed _
  remembered? _ := .unblamed _
  remember _ _ := .unblamed _

/-- The bodies go together. -/
def BodiesFollow (b : Body) (b' : Node → Place → Blaming (String × Bool)) : Prop :=
  ∀ n p, Follows Eq (b n p) (b' n p)

section

variable {b : Body} {b' : Node → Place → Blaming (String × Bool)} (hb : BodiesFollow b b')
  (limit : Nat) (p : Place)
include hb

/-- Telling the node at fault does to a node what rendering it does. -/
theorem node_follows (n : Node) (g : Group) :
    Follows Eq (Render.node eng b limit p n g) (eng.blaming.node b' limit p n g) := by
  have hbodies : (coupling eng).Bodies b b' := by
    rintro n ⟨_, _⟩ ⟨_, _⟩ - ⟨rfl, rfl⟩
    exact hb n _
  rw [← eng.interpretation_node]
  exact (coupling eng).node_same g trivial ⟨rfl, rfl⟩ hbodies limit

/-- The same, for siblings one after the other. -/
theorem nodes_follow (ns : List Node) (g : Group) :
    Follows Eq (Render.nodes eng b limit p ns g) (eng.blameNodes b' limit p ns g) := by
  induction ns generalizing g with
  | nil => exact .pure rfl
  | cons n ns ih =>
    refine .andThen (.within n (node_follows hb limit p n g)) fun (v, g) => ?_
    exact .andThen (ih g) fun _ => .pure rfl

/-- The same, for a group and what stands at its end. -/
theorem group_follows (ns : List Node) :
    Follows Eq (Render.group eng b limit p ns) (eng.blameGroup b' limit p ns) := by
  refine .andThen (nodes_follow hb limit p ns Group.start) ?_
  rintro ⟨vs, isDynamic, pending⟩
  cases pending with
  | some n => exact .throw _
  | none =>
    show Follows Eq (Rendering.ofCause (Markup.join vs) >>= _)
      (eng.blaming.ofCause (Markup.join vs) >>= _)
    cases Markup.join vs with
    | ok s => exact .pure rfl
    | error c => exact .throw _

end

/-- By induction on the depth. -/
theorem bodies_follow (depth : Nat) :
    BodiesFollow (Render.body eng depth) (eng.blameBody depth) := by
  induction depth with
  | zero => exact fun n p => .throw _
  | succ depth ih => exact fun n p => group_follows ih depth p n.children

/-- The same, for a whole rendering. -/
theorem blame_follows (depth : Nat) (tree : Node) (scope : Scope) (location : Option String) :
    Follows Eq (eng.render depth tree scope location) (eng.blame depth tree scope location) :=
  .within tree (.andThen (bodies_follow depth tree _) fun _ => .pure rfl)

end Blaming

/-- The rendering fails where blaming does, and with the same fault. -/
theorem Engine.exec_blame (eng : Engine) (depth : Nat) (tree : Node) (scope : Scope)
    (location : Option String) (w : World) :
    exec (eng.render depth tree scope location) w =
      (((eng.blame depth tree scope location).exec w).1.mapError (·.1),
        ((eng.blame depth tree scope location).exec w).2) := by
  have hfollows : Blaming.Follows Eq (eng.render depth tree scope location)
      (eng.blame depth tree scope location) := Blaming.blame_follows depth tree scope location
  exact Prod.ext (hfollows w).1.eq (hfollows w).2.symm

end Trellis
