import Trellis.Proofs.Interpretation.Answers
import Trellis.Proofs.Interpretation.Coupling
import Trellis.Proofs.Memos.Shape
import Trellis.Proofs.Sharing.Sessions

/-!
# Proofs — Memos — Completions

Which nodes a rendering completes, and with what.  `Engine.tellWithin` renders as the engine does
and tells of every node that is completed: its markup, and the siblings in front of it
(`Completion`).  A node may be completed many times, in the rounds of a loop or the calls of a mixin;
what is skipped or taken from a memo is completed as well, and what is completed is told of even if
the rendering fails later.

What is told is told of the rendering of the engine itself (`Engine.exec_tellWithin`).
-/

namespace Trellis

open Rendering (exec exec_bind Matched)

/-! ### What is told -/

/-- The node is a plain tag. -/
def Node.isTag (n : Node) : Bool :=
  match Role.ofValue n.symbol with
  | .ok .tag => true
  | _ => false

/-- A node is a tag just if its role is. -/
theorem Node.isTag_iff {n : Node} : n.isTag = true ↔ Role.ofValue n.symbol = .ok .tag := by
  unfold Node.isTag
  split
  · next h => exact ⟨fun _ => h, fun _ => rfl⟩
  · next h => exact ⟨fun he => (nomatch he), fun he => absurd he h⟩

/-- A node that is completed: the siblings in front of it, and the piece of markup that it gives. -/
structure Completion where
  before : List Node
  node : Node
  piece : Value

/-- The node is a plain tag, and static with all siblings in front of it. -/
def Completion.isStaticTag (c : Completion) : Bool :=
  c.node.isTag && Node.areStatic (c.before ++ [c.node])

/-! ### Telling -/

/-- Renderings that also tell of what is completed. -/
abbrev Telling := ExceptT Fault (StateM (World × List Completion))

namespace Telling

variable {α β : Type}

/-- What a computation does with a world and what has been told. -/
def exec (x : Telling α) (s : World × List Completion) :
    Except Fault α × World × List Completion :=
  (ExceptT.run x : StateM (World × List Completion) (Except Fault α)).run s

/-- Computations in a row go on with the list of completions that the first one leaves. -/
theorem exec_bind (x : Telling α) (f : α → Telling β) (s : World × List Completion) :
    exec (x >>= f) s =
      match exec x s with
      | (.ok a, s') => exec (f a) s'
      | (.error e, s') => (.error e, s') := by
  rw [exec, ExceptT.run_bind, StateT.run_bind, exec]
  rcases StateT.run (ExceptT.run x) s with ⟨_ | _, _⟩ <;> rfl

/-- After a result, the next computation goes on with it. -/
theorem exec_bind_ok {x : Telling α} {s s' : World × List Completion} {a : α}
    (h : exec x s = (.ok a, s')) (f : α → Telling β) : exec (x >>= f) s = exec (f a) s' := by
  rw [exec_bind, h]

/-- One more completion is told. -/
def tell (c : Completion) : Telling Unit :=
  modify fun s => (s.1, s.2 ++ [c])

end Telling

/-- The computation, which tells nothing. -/
def Rendering.told {α : Type} (x : Rendering α) : Telling α :=
  ExceptT.mk fun s => ((exec x s.1).1, (exec x s.1).2, s.2)

namespace Engine

variable (eng : Engine)

/-- What the engine answers, which tells nothing. -/
def telling : Interpretation eng Telling :=
  eng.interpretation.map Rendering.told

section

variable (inner : Node → Place → Telling (String × Bool)) (limit : Nat) (p : Place)

/-- A node behind some siblings, and what is told of it. -/
def nodeTold (before : List Node) (n : Node) (g : Group) : Telling (Value × Group) := do
  let (v, g) ← eng.telling.node inner limit p n g
  Telling.tell ⟨before, n, v⟩
  return (v, g)

/-- Nodes one after the other behind some siblings. -/
def nodesTold : (before ns : List Node) → Group → Telling (List Value × Group)
  | _, [], g => pure ([], g)
  | before, n :: ns, g => do
    let (v, g) ← eng.nodeTold inner limit p before n g
    let (vs, g) ← nodesTold (before ++ [n]) ns g
    return (v :: vs, g)

/-- A group of siblings. -/
def groupTold (ns : List Node) : Telling (String × Bool) := do
  let (vs, g) ← eng.nodesTold inner limit p [] ns Group.start
  match g.pending with
  | some n => eng.telling.complain .missingElse n.position
  | none => return (← eng.telling.ofCause (Markup.join vs), g.isDynamic)

end

/-- The children of a node, at most `depth` groups deep and `depth` times in a loop. -/
def bodyTold : (depth : Nat) → Node → Place → Telling (String × Bool)
  | 0 => fun _ _ => eng.telling.fail .exhausted
  | depth + 1 => fun n p => eng.groupTold (bodyTold depth) depth p n.children

/-- The rendering of a draft, within a depth, and what is told of it. -/
def tellWithin (depth : Nat) (d : Draft) (scope : Scope) (location : Option String) :
    Telling String := do
  match d with
  | .value .none => (Rendering.complain .noTree .none : Rendering String).told
  | d => do
    let n ← (Rendering.build d.node).told
    return (← eng.bodyTold depth n ⟨scope, location⟩).1

/-- What a rendering of a draft completes, in order. -/
def completions (depth : Nat) (d : Draft) (scope : Scope) (location : Option String) (w : World) :
    List Completion :=
  ((eng.tellWithin depth d scope location).exec (w, [])).2.2

end Engine

/-! ### The engine and what is told of it -/

namespace Completions

variable {eng : Engine} {α β : Type}

/-- The telling computation ends as the other one does. -/
def Follows (R : α → α → Prop) (x : Rendering α) (y : Telling α) : Prop :=
  ∀ s, Matched R (exec x s.1).1 (y.exec s).1 ∧ (y.exec s).2.1 = (exec x s.1).2

namespace Follows

variable {R : α → α → Prop} {Q : β → β → Prop}

theorem pure {a b : α} (h : R a b) : Follows R (Pure.pure a) (Pure.pure b) :=
  fun _ => ⟨.ok h, rfl⟩

/-- A computation is followed by itself, and completes nothing. -/
theorem told (x : Rendering α) : Follows Eq x x.told :=
  fun _ => ⟨.same _, rfl⟩

theorem throw (f : Fault) : Follows R (throw f) (throw f : Rendering α).told :=
  fun _ => ⟨.error f, rfl⟩

theorem mono {S : α → α → Prop} {x : Rendering α} {y : Telling α} (hx : Follows R x y)
    (h : ∀ a b, R a b → S a b) : Follows S x y :=
  fun s => ⟨(hx s).1.mono h, (hx s).2⟩

/-- Computations that are followed step by step are followed. -/
theorem bind {x : Rendering α} {y : Telling α} {f : α → Rendering β} {g : α → Telling β}
    (hx : Follows R x y) (hf : ∀ a b, R a b → Follows Q (f a) (g b)) :
    Follows Q (x >>= f) (y >>= g) := by
  intro s
  have h := hx s
  rw [exec_bind, Telling.exec_bind]
  generalize exec x s.1 = o at h ⊢
  generalize y.exec s = o' at h ⊢
  obtain ⟨r, w⟩ := o
  obtain ⟨r', s'⟩ := o'
  obtain ⟨hm, rfl : s'.1 = w⟩ := h
  cases hm with
  | error e => exact ⟨.error e, rfl⟩
  | ok h => exact hf _ _ h s'

/-- After equal results, what follows is about one of them. -/
theorem andThen {x : Rendering α} {y : Telling α} {f : α → Rendering β} {g : α → Telling β}
    (hx : Follows Eq x y) (hf : ∀ a, Follows Q (f a) (g a)) : Follows Q (x >>= f) (y >>= g) := by
  refine bind hx fun a b hab => ?_
  obtain rfl := hab
  exact hf a

/-- Telling makes no difference. -/
theorem tell (c : Completion) {x : Rendering α} {f : Unit → Telling α} (h : Follows R x (f ())) :
    Follows R x (Telling.tell c >>= f) :=
  fun s => h (s.1, s.2 ++ [c])

/-- What is followed is done, and completions are listed besides. -/
theorem exec_eq {x : Rendering α} {y : Telling α} (h : Follows Eq x y)
    (s : World × List Completion) : y.exec s = ((exec x s.1).1, (exec x s.1).2, (y.exec s).2.2) := by
  obtain ⟨hm, hw⟩ := h s
  rw [hm.eq, ← hw]

end Follows

/-- **What is told goes with the rendering.** -/
def coupling (eng : Engine) : Coupling eng.interpretation eng.telling where
  node _ := True
  scope := Eq
  location := Eq
  Rel := Follows
  children _ _ _ := trivial
  extend := Coupling.extend_eq
  pure := .pure
  bind := .bind
  fail _ := .throw _
  onHeap _ := .told _
  enter _ _ _ := .told _
  define _ _ _ := .andThen (.told _) fun _ => .told _
  evaluate _ _ hs := hs ▸ .told _
  mixin _ _ := (Follows.told _).mono fun _ _ h => ⟨h, trivial⟩
  plugin _ _ := .told _
  transform _ _ _ _ := .told _
  text _ _ _ hl := hl ▸ .told _
  tree _ _ _ hl := hl ▸ (Follows.told _).mono fun _ _ h => ⟨h ▸ rfl, trivial, h ▸ rfl⟩
  track _ _ _ hl := hl ▸ .told _
  including _ _ _ _ hl := hl ▸ .told _
  remembered? _ := .told _
  remember _ _ := .told _

/-- The bodies go together. -/
def BodiesFollow (b : Body) (b' : Node → Place → Telling (String × Bool)) : Prop :=
  ∀ n p, Follows Eq (b n p) (b' n p)

section

variable {b : Body} {b' : Node → Place → Telling (String × Bool)} (hb : BodiesFollow b b')
  (limit : Nat) (p : Place)
include hb

/-- Telling completions does to a node what rendering it does. -/
theorem node_follows (n : Node) (g : Group) :
    Follows Eq (Render.node eng b limit p n g) (eng.telling.node b' limit p n g) := by
  have hbodies : (coupling eng).Bodies b b' := by
    rintro n ⟨_, _⟩ ⟨_, _⟩ - ⟨rfl, rfl⟩
    exact hb n _
  rw [← eng.interpretation_node]
  exact (coupling eng).node_same g trivial ⟨rfl, rfl⟩ hbodies limit

/-- The same, for siblings one after the other. -/
theorem nodes_follow (before ns : List Node) (g : Group) :
    Follows Eq (Render.nodes eng b limit p ns g) (eng.nodesTold b' limit p before ns g) := by
  induction ns generalizing before g with
  | nil => exact .pure rfl
  | cons n ns ih =>
    unfold Engine.nodesTold Engine.nodeTold
    rw [bind_assoc]
    refine .andThen (node_follows hb limit p n g) fun (v, g) => ?_
    rw [bind_assoc]
    exact .tell _ (.andThen (ih _ g) fun _ => .pure rfl)

/-- The same, for a group. -/
theorem group_follows (ns : List Node) :
    Follows Eq (Render.group eng b limit p ns) (eng.groupTold b' limit p ns) := by
  refine .andThen (nodes_follow hb limit p [] ns Group.start) ?_
  rintro ⟨vs, isDynamic, pending⟩
  cases pending with
  | some n => exact .throw _
  | none =>
    show Follows Eq (Rendering.ofCause (Markup.join vs) >>= _)
      (eng.telling.ofCause (Markup.join vs) >>= _)
    cases Markup.join vs with
    | ok s => exact .pure rfl
    | error c => exact .throw _

end

/-- By induction on the depth. -/
theorem bodies_follow (depth : Nat) : BodiesFollow (Render.body eng depth) (eng.bodyTold depth) := by
  induction depth with
  | zero => exact fun n p => .throw _
  | succ depth ih => exact fun n p => group_follows ih depth p n.children

/-- The same, for a whole rendering of a draft. -/
theorem tellWithin_follows (depth : Nat) (d : Draft) (scope : Scope) (location : Option String) :
    Follows Eq (eng.renderWithin depth d scope location)
      (eng.tellWithin depth d scope location) := by
  by_cases hno : d = .value .none
  · subst hno
    exact .throw _
  · have htell : eng.tellWithin depth d scope location = (do
        let n ← (Rendering.build d.node).told
        return (← eng.bodyTold depth n ⟨scope, location⟩).1) := by
      unfold Engine.tellWithin
      split
      · exact absurd rfl hno
      · rfl
    rw [Session.renderWithin_eq hno, htell]
    refine .andThen (.told _) fun n => ?_
    exact .andThen (bodies_follow depth n _) fun _ => .pure rfl

end Completions

/-- Telling ends as the rendering does, and beside it tells what is completed. -/
theorem Engine.exec_tellWithin (eng : Engine) (depth : Nat) (d : Draft) (scope : Scope)
    (location : Option String) (w : World) :
    (eng.tellWithin depth d scope location).exec (w, []) =
      ((exec (eng.renderWithin depth d scope location) w).1,
        (exec (eng.renderWithin depth d scope location) w).2,
        eng.completions depth d scope location w) :=
  (Completions.tellWithin_follows depth d scope location).exec_eq (w, [])

end Trellis
