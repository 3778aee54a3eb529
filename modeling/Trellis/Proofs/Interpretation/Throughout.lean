import Trellis.Proofs.Interpretation.Renderer
import Trellis.Proofs.Memos.Policy

/-!
# Proofs — Interpretation — Throughout

What holds of all nodes that a rendering can come to.  `P` holds throughout a node if it holds of
the node and of all below it; throughout a draft, a source or a loader if it holds throughout all
nodes that they give.  `World.Throughout P E L` says this of a world: of the mixins of the engines
in `E` and of the loaders in `L`.

`Rendering.Maintains` says that a computation leaves an invariant of worlds as it is.  Loading and
defining maintain `World.Throughout`, as long as a node is defined of which `P` holds throughout.
-/

namespace Trellis

open Rendering (exec exec_bind)

variable {P : Node → Prop}

/-! ### Nodes and what gives them -/

namespace Node

/-- `P` holds of the node and of all below it. -/
def Throughout (P : Node → Prop) (n : Node) : Prop :=
  ∀ k, n.Under k → P k

namespace Throughout

variable {n : Node}

/-- What holds throughout a node holds of it. -/
theorem self (h : n.Throughout P) : P n :=
  h n .refl

/-- It holds throughout its children. -/
theorem children (h : n.Throughout P) : ∀ c ∈ n.children, c.Throughout P :=
  fun _ hc k hk => h k (.head hc hk)

/-- It holds throughout a node if it does of the node and throughout its children. -/
theorem intro (hn : P n) (hc : ∀ c ∈ n.children, c.Throughout P) : n.Throughout P := by
  intro k hk
  rcases Relation.ReflTransGen.cases_head hk with rfl | ⟨c, hm, hk⟩
  · exact hn
  · exact hc c hm k hk

end Throughout

end Node

/-- `P` holds throughout all nodes that are built of the draft. -/
def Draft.Throughout (P : Node → Prop) (d : Draft) : Prop :=
  ∀ i n j, d.node.run i = .ok (n, j) → n.Throughout P

/-- It holds throughout a finished node if it does throughout the node. -/
theorem Draft.throughout_finished {n : Node} :
    (Draft.finished n).Throughout P ↔ n.Throughout P := by
  constructor
  · exact fun h => h 0 n 0 rfl
  · intro h i k j he
    cases he
    exact h

namespace Draft

/-- All results of the builder satisfy `Q`. -/
def Gives {α : Type} (Q : α → Prop) (b : Build α) : Prop :=
  ∀ i a j, b.run i = .ok (a, j) → Q a

namespace Gives

variable {α β : Type} {Q : α → Prop} {Q' : β → Prop}

theorem pure {a : α} (h : Q a) : Gives Q (Pure.pure a) := by
  intro i b j he
  cases he
  exact h

theorem throw (f : Fault) : Gives Q (throw f) := by
  intro i b j he
  cases he

/-- Builders in a row give what the last one gives. -/
theorem bind {x : Build α} {f : α → Build β} (hx : Gives Q x) (hf : ∀ a, Q a → Gives Q' (f a)) :
    Gives Q' (x >>= f) := by
  intro i b k he
  rw [StateT.run_bind] at he
  cases hr : x.run i with
  | error e =>
    rw [hr] at he
    cases he
  | ok r =>
    rw [hr] at he
    exact hf r.1 (hx i r.1 r.2 hr) _ _ _ he

end Gives

/-- A node that is assembled has the children that it is given. -/
theorem assemble_children (fields : List (Value × Value)) (ns : List Node) :
    Gives (fun n => n.children = ns) (assemble fields ns) := by
  intro i n j h
  obtain ⟨as, -, rfl, -⟩ := assemble_eq_ok_iff.mp h
  rfl

variable (P) in
/-- Each node that is put together satisfies `P`, whatever its children are. -/
def Assembles : Prop :=
  ∀ fields ns, Gives P (assemble fields ns)

/-- What every assembled node has is had throughout, if the children have it throughout. -/
theorem assemble_throughout (hP : Assembles P) (fields : List (Value × Value)) {ns : List Node}
    (hns : ∀ n ∈ ns, n.Throughout P) : Gives (Node.Throughout P) (assemble fields ns) := by
  intro i n j h
  refine .intro (hP fields ns i n j h) ?_
  rw [assemble_children fields ns i n j h]
  exact hns

mutual

/-- **What is built satisfies `P` throughout** if each single node does that is put together, and if
`P` holds throughout the finished nodes.  By induction on the draft. -/
theorem node_throughout (hP : Assembles P) :
    (d : Draft) → d.Within {n | n.Throughout P} → Gives (Node.Throughout P) d.node
  | .finished _, h => .pure h
  | .value _, _ => .throw _
  | .list ds, h => (nodes_throughout hP ds h).bind fun _ hns => assemble_throughout hP [] hns
  | .dict fields children, h =>
    (childNodes_throughout hP children h).bind fun _ hns => assemble_throughout hP fields hns
termination_by structural d => d

/-- So it is with nodes that are built one after the other. -/
theorem nodes_throughout (hP : Assembles P) :
    (ds : List Draft) → AllWithin {n | n.Throughout P} ds →
      Gives (fun ns => ∀ n ∈ ns, n.Throughout P) (nodes ds)
  | [], _ => .pure fun _ hn => nomatch hn
  | d :: ds, h => by
    refine (node_throughout hP d h.1).bind fun n hn => ?_
    refine (nodes_throughout hP ds h.2).bind fun ns hns => ?_
    exact .pure (List.forall_mem_cons.mpr ⟨hn, hns⟩)
termination_by structural ds => ds

/-- And so it is with the children of a description. -/
theorem childNodes_throughout (hP : Assembles P) : (d : Draft) → d.Within {n | n.Throughout P} →
    Gives (fun ns => ∀ n ∈ ns, n.Throughout P) d.childNodes
  | .finished _, _ => .throw _
  | .value v, _ => by
    show Gives _ (noChildren v)
    unfold noChildren
    split <;> split
    · exact .pure fun _ hn => nomatch hn
    · exact .throw _
    · exact .throw _
    · exact .pure fun _ hn => nomatch hn
  | .list ds, h => nodes_throughout hP ds h
  | .dict fields _, _ => by
    cases fields with
    | nil => exact .pure fun _ hn => nomatch hn
    | cons e es => exact .throw _
termination_by structural d => d

end

end Draft

/-- `P` holds throughout the nodes of the source. -/
def Source.Throughout (P : Node → Prop) : Source → Prop
  | .node n => n.Throughout P
  | .draft v => (Draft.ofValue v).Throughout P
  | _ => True

/-- `P` holds throughout the tree that is loaded. -/
def Loaded.Throughout (P : Node → Prop) : Loaded → Prop
  | .tree d _ => d.Throughout P
  | .text _ => True

/-- `P` holds throughout the nodes of the sources. -/
def Sources.Throughout (P : Node → Prop) (t : Sources) : Prop :=
  ∀ e ∈ t, e.2.Throughout P

/-- `P` holds throughout all trees that the loader gives. -/
def Loader.Throughout (P : Node → Prop) : Loader → Prop
  | .sources t => t.Throughout P
  | .empty => True
  | .custom answer => ∀ path location wanted l,
      answer path location wanted = .ok l → l.Throughout P

namespace Sources.Throughout

variable {t u : Sources} {path : String} {s : Source}

/-- A stored source has throughout what all sources have. -/
theorem stored? (ht : t.Throughout P) (h : t.stored? path = some s) : s.Throughout P :=
  ht _ (Table.mem_of_get? (Option.filter_eq_some_iff.mp h).1)

/-- So has a source that is found. -/
theorem find? (ht : t.Throughout P) (h : t.find? path = some s) : s.Throughout P := by
  unfold Sources.find? at h
  split at h
  · next v hv => exact ht.stored? (h ▸ hv)
  · exact ht.stored? h

/-- A source that is put in must have it too. -/
theorem put (ht : t.Throughout P) (path : String) (hs : s.Throughout P) :
    Sources.Throughout P (Table.put path s t) := by
  intro e he
  rcases Table.eq_or_mem_of_mem_put he with rfl | he
  · exact hs
  · exact ht e he

/-- Loading keeps to the nodes that are there and to those that are built of drafts. -/
theorem load (ht : t.Throughout P) {i j : Nat} (h : (t.load path).run i = .ok ((s, u), j)) :
    s.Throughout P ∧ u.Throughout P := by
  unfold Sources.load at h
  split at h
  · cases h
  · next v hv =>
    cases hr : (Draft.ofValue v).node.run i with
    | error f =>
      rw [StateT.run_bind, hr] at h
      cases h
    | ok r =>
      obtain ⟨n, k⟩ := r
      rw [StateT.run_bind, hr] at h
      cases h
      have hn : n.Throughout P := ht.find? hv i n _ hr
      exact ⟨hn, ht.put path hn⟩
  · next s' _ hs =>
    cases h
    exact ⟨ht.find? hs, ht⟩

end Sources.Throughout

/-- What a loader serves of a source has what the source has. -/
theorem Loader.serve_throughout {path canonical : String} {wanted : Wanted} {s : Source}
    {l : Loaded} (hs : s.Throughout P) (h : Loader.serve path wanted canonical s = .ok l) :
    l.Throughout P := by
  cases s <;> cases wanted <;> cases h
  · trivial
  · exact Draft.throughout_finished.mpr hs

/-! ### Worlds -/

/-- `P` holds throughout the mixins of the engines in `E` and the trees of the loaders in `L`. -/
structure World.Throughout (P : Node → Prop) (E L : Set Nat) (w : World) : Prop where
  mixins : ∀ i ∈ E, ∀ e ∈ w.mixinsOf i, e.2.body.Throughout P
  loaders : ∀ k ∈ L, (w.loader k).Throughout P

namespace World.Throughout

variable {E L : Set Nat} {w w' : World}

/-- Only the mixins and the loaders count. -/
theorem congr (h : w.Throughout P E L) (hm : w'.mixins = w.mixins) (hl : w'.loaders = w.loaders) :
    w'.Throughout P E L := by
  refine ⟨?_, ?_⟩
  · simpa only [World.mixinsOf, hm] using h.mixins
  · simpa only [World.loader, hl] using h.loaders

/-- A loader may be put in the place of another that has it, too. -/
theorem setSources (h : w.Throughout P E L) (number : Nat) {t : Sources} (ht : t.Throughout P) :
    World.Throughout P E L
      { w with loaders := w.loaders.setIfInBounds number (.sources t) } := by
  refine ⟨h.mixins, fun k hk => ?_⟩
  show ((w.loaders.setIfInBounds number (.sources t)).getD k .empty).Throughout P
  rw [getD_setIfInBounds]
  split
  · exact ht
  · exact h.loaders k hk

/-- A mixin may be defined if its body has it. -/
theorem setMixins (h : w.Throughout P E L) (i : Nat) {name : String} {d : Mixin}
    (hi : i ∈ E) (hd : d.body.Throughout P) :
    World.Throughout P E L
      { w with mixins := w.mixins.setIfInBounds i (Table.put name d (w.mixinsOf i)) } := by
  refine ⟨fun j hj e he => ?_, h.loaders⟩
  rw [Engine.mixinsOf_set] at he
  split at he
  · rcases Table.eq_or_mem_of_mem_put he with rfl | he
    · exact hd
    · exact h.mixins i hi e he
  · exact h.mixins j hj e he

end World.Throughout

/-- Looking for a plugin changes nothing. -/
theorem Engine.exec_plugin (eng : Engine) (name : String) (position : Value) (w : World) :
    exec (eng.plugin name position) w = ((eng.registryIn w).load name position, w) := by
  simp only [Engine.plugin, Engine.plugins, exec_bind, Rendering.exec_get, Rendering.exec_pure,
    Rendering.exec_ofExcept, Engine.registryIn]

/-! ### Computations that maintain an invariant -/

namespace Rendering

variable {α β : Type} {Inv : World → Prop}

/-- From a world that satisfies `Inv`, the computation ends in one that does, and a result
satisfies `Q`. -/
def Maintains (Inv : World → Prop) (Q : α → Prop) (x : Rendering α) : Prop :=
  ∀ w, Inv w → Inv (exec x w).2 ∧ ∀ a, (exec x w).1 = .ok a → Q a

namespace Maintains

variable {Q : α → Prop} {Q' : β → Prop}

theorem pure {a : α} (h : Q a) : Maintains Inv Q (Pure.pure a) := by
  intro w hw
  refine ⟨hw, fun b hb => ?_⟩
  obtain rfl := Except.ok.inj hb
  exact h

theorem throw (f : Fault) : Maintains Inv Q (throw f) := by
  intro w hw
  refine ⟨hw, fun b hb => ?_⟩
  cases hb

/-- Computations in a row keep an invariant if each does. -/
theorem bind {x : Rendering α} {f : α → Rendering β} (hx : Maintains Inv Q x)
    (hf : ∀ a, Q a → Maintains Inv Q' (f a)) : Maintains Inv Q' (x >>= f) := by
  intro w hw
  have h := hx w hw
  rw [exec_bind]
  rcases hr : exec x w with ⟨e | a, w₁⟩ <;> rw [hr] at h
  · exact ⟨h.1, fun b hb => by cases hb⟩
  · exact hf a (h.2 a rfl) w₁ h.1

/-- The outcome of an operation keeps every invariant. -/
theorem ofExcept (r : Except Fault α) (h : ∀ a, r = .ok a → Q a) :
    Maintains Inv Q (Rendering.ofExcept r) := by
  cases r with
  | ok a => exact pure (h a rfl)
  | error f => exact throw f

end Maintains

end Rendering

open Rendering (Maintains)

namespace World.Throughout

variable {E L : Set Nat} {eng : Engine}

theorem maintains_note (e : Event) :
    Maintains (World.Throughout P E L) (fun _ => True) (Rendering.note e) :=
  fun _ hw => ⟨hw.congr rfl rfl, fun _ _ => trivial⟩

/-- Actions on the heap leave nodes alone. -/
theorem maintains_onHeap {α : Type} (a : Action α) :
    Maintains (World.Throughout P E L) (fun _ => True) (Rendering.onHeap a) := by
  intro w hw
  rw [Rendering.exec_onHeap]
  exact ⟨hw.congr rfl rfl, fun _ _ => trivial⟩

/-- What is built of a description has throughout what the description has. -/
theorem maintains_build {d : Draft} (hd : d.Throughout P) :
    Maintains (World.Throughout P E L) (Node.Throughout P) (Rendering.build d.node) := by
  intro w hw
  rw [Rendering.exec_build]
  cases h : d.node.run w.nextNode with
  | error f => exact ⟨hw, fun n hn => by cases hn⟩
  | ok r =>
    refine ⟨hw.congr rfl rfl, fun n hn => ?_⟩
    obtain rfl := Except.ok.inj hn
    exact hd _ _ _ h

/-- What leaves the mixins and the loaders alone. -/
theorem maintains_of_eq {α : Type} {x : Rendering α}
    (hx : ∀ w, (exec x w).2.mixins = w.mixins ∧ (exec x w).2.loaders = w.loaders) :
    Maintains (World.Throughout P E L) (fun _ => True) x :=
  fun w hw => ⟨hw.congr (hx w).1 (hx w).2, fun _ _ => trivial⟩

/-- Plugins leave nodes alone. -/
theorem maintains_plugin (name : String) (position : Value) :
    Maintains (World.Throughout P E L) (fun _ => True) (eng.plugin name position) := by
  refine maintains_of_eq fun w => ?_
  rw [Engine.exec_plugin]
  exact ⟨rfl, rfl⟩

theorem maintains_transform (name : String) (q : Plugin) (source : String)
    (attributes : List (Value × Value)) :
    Maintains (World.Throughout P E L) (fun _ => True)
      (Engine.transform name q source attributes) :=
  (maintains_note _).bind fun _ _ => .ofExcept _ fun _ _ => trivial

/-- So do trackers. -/
theorem maintains_track (location : Option String) (path : String) :
    Maintains (World.Throughout P E L) (fun _ => True) (eng.track location path) := by
  refine maintains_of_eq fun w => ?_
  unfold Engine.track
  cases eng.tracker <;> exact ⟨rfl, rfl⟩

theorem maintains_including (wanted : Wanted) (path : String) (location : Option String) :
    Maintains (World.Throughout P E L) (fun _ => True)
      (Engine.including wanted path location) := by
  cases wanted <;> exact maintains_note _

theorem maintains_remembered? (n : Node) :
    Maintains (World.Throughout P E L) (fun _ => True) (eng.remembered? n) :=
  maintains_of_eq fun _ => ⟨rfl, rfl⟩

/-- So do memos. -/
theorem maintains_remember (n : Node) (html : String) :
    Maintains (World.Throughout P E L) (fun _ => True) (eng.remember n html) :=
  maintains_of_eq fun _ => ⟨rfl, rfl⟩

/-- The body of a mixin that is found has it throughout. -/
theorem maintains_mixin? (hid : eng.id ∈ E) (name : String) :
    Maintains (World.Throughout P E L) (fun m => ∀ d ∈ m, d.body.Throughout P)
      (eng.mixin? name) := by
  intro w hw
  refine ⟨hw, fun m hm d hd => ?_⟩
  obtain rfl : Table.get? name (w.mixinsOf eng.id) = m := Except.ok.inj hm
  exact hw.mixins eng.id hid _ (Table.mem_of_get? hd)

/-- So has the body of a mixin that is called. -/
theorem maintains_mixin (hid : eng.id ∈ E) (name : String) (position : Value) :
    Maintains (World.Throughout P E L) (fun d => d.body.Throughout P)
      (eng.mixin name position) := by
  refine (maintains_mixin? hid name).bind fun d hd => ?_
  cases d with
  | none => exact .throw _
  | some d => exact .pure (hd d rfl)

/-- A definition keeps it if its body has it. -/
theorem maintains_define (hid : eng.id ∈ E) (name : String) {d : Mixin}
    (hd : d.body.Throughout P) :
    Maintains (World.Throughout P E L) (fun _ => True) (eng.define name d) :=
  fun _ hw => ⟨(hw.setMixins eng.id hid hd).congr rfl rfl, fun _ _ => trivial⟩

/-- What a loader gives has it, and what the loader keeps. -/
theorem maintains_load {number : Nat} (hnumber : number ∈ L) (path : String)
    (location : Option String) (wanted : Wanted) :
    Maintains (World.Throughout P E L) (Loaded.Throughout P)
      (Engine.load number path location wanted) := by
  intro w hw
  have hin := hw.loaders number hnumber
  simp only [Engine.load, exec_bind, Rendering.exec_get]
  unfold World.loader at hin
  generalize w.loaders.getD number .empty = l at hin ⊢
  cases l with
  | empty => exact ⟨hw.congr rfl rfl, fun a ha => by cases ha⟩
  | custom answer =>
    rw [Rendering.exec_ofExcept]
    exact ⟨hw, hin path location wanted⟩
  | sources t =>
    simp only [Engine.loadFrom, exec_bind, Rendering.exec_note, Rendering.exec_build]
    cases hr : (t.load (Path.canonical path location)).run w.nextNode with
    | error f => exact ⟨hw.congr rfl rfl, fun a ha => by cases ha⟩
    | ok r =>
      obtain ⟨⟨s, u⟩, j⟩ := r
      obtain ⟨hs, hu⟩ := Sources.Throughout.load hin hr
      simp only [Rendering.exec_modify, Rendering.exec_ofExcept]
      exact ⟨(hw.setSources number hu).congr rfl rfl, fun l hl => Loader.serve_throughout hs hl⟩

section

variable (hloader : ∀ number, eng.loader = some number → number ∈ L)
include hloader

/-- So has what is requested. -/
theorem maintains_request (path : String) (location : Option String) (wanted : Wanted) :
    Maintains (World.Throughout P E L) (Loaded.Throughout P)
      (eng.request path location wanted) := by
  unfold Engine.request
  cases h : eng.loader with
  | none => exact .throw _
  | some number =>
    exact (maintains_note _).bind fun _ _ => maintains_load (hloader number h) path location wanted

/-- A text has no nodes. -/
theorem maintains_text (path : String) (location : Option String) :
    Maintains (World.Throughout P E L) (fun _ => True) (eng.text path location) := by
  refine (maintains_request hloader path location .text).bind fun l _ => ?_
  cases l with
  | text s => exact .pure trivial
  | tree d l => exact .throw _

/-- A tree that is included has it throughout. -/
theorem maintains_tree (path : String) (location : Option String) :
    Maintains (World.Throughout P E L) (fun r => r.1.Throughout P) (eng.tree path location) := by
  refine (maintains_request hloader path location .tree).bind fun l hl => ?_
  cases l with
  | text s => exact .throw _
  | tree d location => exact (maintains_build hl).bind fun n hn => .pure hn

end

end World.Throughout
end Trellis
