import Trellis.Proofs.Interpretation.Throughout
import Trellis.Proofs.Sharing.Places

/-!
# Proofs — Sharing — Tidy

Worlds in which no node is shared (`World.Tidy`), and the answers of an engine in them: they may
bring new nodes, but share none, and leave what is remembered as it is (`Rendering.Tidies`).  What is
remembered is left out here, since it is the rendering of a tag that remembers.
-/

namespace Trellis

open Rendering (exec exec_bind)

/-- The nodes of the world are in `S`, and shared nowhere. -/
structure World.Tidy (S : Set Node) (w : World) : Prop where
  nodes : Unshared S w.nextNode
  mixins : ∀ i, ∀ e ∈ w.mixinsOf i, e.2.body ∈ S
  loaders : ∀ k, (w.loader k).Lasting S

namespace World.Tidy

variable {S T : Set Node} {w w' : World}

/-- A tree with distinct identities, in a world that has no other nodes. -/
theorem of_tree {n : Node} (hd : n.ids.Nodup) (hlt : ∀ i ∈ n.ids, i < w.nextNode)
    (hm : ∀ i, w.mixinsOf i = []) (hl : ∀ k, w.loader k = .empty) : w.Tidy {m | n.Under m} := by
  refine ⟨Node.unshared_of_nodup hd hlt, fun i e he => ?_, fun k => ?_⟩
  · rw [hm] at he
    cases he
  · rw [hl]
    trivial

/-- Only the supply of nodes, the mixins and the loaders count. -/
theorem congr (h : w.Tidy S) (hn : w'.nextNode = w.nextNode) (hm : w'.mixins = w.mixins)
    (hl : w'.loaders = w.loaders) : w'.Tidy S := by
  refine ⟨?_, ?_, ?_⟩
  · rw [hn]
    exact h.nodes
  · simpa only [World.mixinsOf, hm] using h.mixins
  · simpa only [World.loader, hl] using h.loaders

/-- More nodes are used. -/
theorem grow {next : Nat} (h : w.Tidy S) (hST : S ⊆ T) (hT : Unshared T next) :
    World.Tidy T { w with nextNode := next } :=
  ⟨hT, fun i e he => hST (h.mixins i e he), fun k => (h.loaders k).mono hST⟩

/-- A loader gets other sources. -/
theorem setSources (h : w.Tidy S) (number : Nat) {t : Sources} (ht : t.Within S) :
    World.Tidy S { w with loaders := w.loaders.setIfInBounds number (.sources t) } := by
  refine ⟨h.nodes, h.mixins, fun k => ?_⟩
  show ((w.loaders.setIfInBounds number (.sources t)).getD k .empty).Lasting S
  rw [getD_setIfInBounds]
  split
  · exact ht
  · exact h.loaders k

/-- A mixin is defined. -/
theorem setMixins (h : w.Tidy S) (i : Nat) (name : String) {d : Mixin} (hd : d.body ∈ S) :
    World.Tidy S
      { w with mixins := w.mixins.setIfInBounds i (Table.put name d (w.mixinsOf i)) } := by
  refine ⟨h.nodes, fun j e he => ?_, h.loaders⟩
  rw [Engine.mixinsOf_set] at he
  split at he
  · rcases Table.eq_or_mem_of_mem_put he with rfl | he
    · exact hd
    · exact h.mixins i e he
  · exact h.mixins j e he

end World.Tidy

namespace Rendering

variable {α β : Type} {S : Set Node}

/-- In a tidy world, the computation shares no nodes, though it may bring new ones, leaves what is
remembered as it is, and gives what satisfies `P`. -/
def Tidies (S : Set Node) (P : Set Node → α → Prop) (x : Rendering α) : Prop :=
  ∀ w, w.Tidy S → ∃ T, S ⊆ T ∧ (exec x w).2.Tidy T ∧ (exec x w).2.memos = w.memos ∧
    ∀ a, (exec x w).1 = .ok a → P T a

namespace Tidies

variable {P : Set Node → α → Prop} {Q : Set Node → β → Prop} {eng : Engine}

theorem pure {a : α} (h : P S a) : Tidies S P (Pure.pure a) := by
  intro w hw
  refine ⟨S, fun _ hn => hn, hw, rfl, fun b hb => ?_⟩
  obtain rfl := Except.ok.inj hb
  exact h

theorem throw (f : Fault) : Tidies S P (throw f) := by
  intro w hw
  refine ⟨S, fun _ hn => hn, hw, rfl, fun b hb => ?_⟩
  cases hb

/-- Computations in a row are tidy if each is. -/
theorem bind {x : Rendering α} {f : α → Rendering β} (hx : Tidies S P x)
    (hf : ∀ T a, S ⊆ T → P T a → Tidies T Q (f a)) : Tidies S Q (x >>= f) := by
  intro w hw
  obtain ⟨T, hST, hT, hm, hP⟩ := hx w hw
  rw [exec_bind]
  rcases hr : exec x w with ⟨e | a, w₁⟩ <;> rw [hr] at hT hm hP
  · exact ⟨T, hST, hT, hm, fun b hb => by cases hb⟩
  · obtain ⟨U, hTU, hU, hm', hQ⟩ := hf T a hST (hP a rfl) w₁ hT
    exact ⟨U, fun _ hn => hTU (hST hn), hU, hm'.trans hm, hQ⟩

/-- The outcome of an operation is tidy. -/
theorem ofExcept (r : Except Fault α) (h : ∀ a, r = .ok a → P S a) :
    Tidies S P (Rendering.ofExcept r) := by
  cases r with
  | ok a => exact pure (h a rfl)
  | error f => exact throw f

/-- What leaves nodes, mixins, loaders and memos alone. -/
theorem of_eq {x : Rendering α} (hx : ∀ w, (exec x w).2.nextNode = w.nextNode ∧
    (exec x w).2.mixins = w.mixins ∧ (exec x w).2.loaders = w.loaders ∧
    (exec x w).2.memos = w.memos) : Tidies S (fun _ _ => True) x := by
  intro w hw
  obtain ⟨hn, hm, hl, hmemos⟩ := hx w
  exact ⟨S, fun _ hn => hn, hw.congr hn hm hl, hmemos, fun _ _ => trivial⟩

theorem note (e : Event) : Tidies S (fun _ _ => True) (Rendering.note e) :=
  of_eq fun _ => ⟨rfl, rfl, rfl, rfl⟩

/-- Actions on the heap leave nodes alone. -/
theorem onHeap (a : Action α) : Tidies S (fun _ _ => True) (Rendering.onHeap a) := by
  refine of_eq fun w => ?_
  rw [exec_onHeap]
  exact ⟨rfl, rfl, rfl, rfl⟩

/-- So do evaluations. -/
theorem evaluate (scope : Scope) (position text : Value) :
    Tidies S (fun _ _ => True) (eng.evaluate scope position text) :=
  (note _).bind fun _ _ _ _ => onHeap _

/-- A draft that fits is built tidily. -/
theorem build {b : Draft.Build α} (h : Draft.Grows S (fun T a => S ⊆ T ∧ P T a) b) :
    Tidies S P (Rendering.build b) := by
  intro w hw
  rw [exec_build]
  cases hr : b.run w.nextNode with
  | error f => exact ⟨S, fun _ hn => hn, hw, rfl, fun a ha => by cases ha⟩
  | ok r =>
    obtain ⟨T, hT, hST, hP⟩ := h _ r.1 r.2 hw.nodes hr
    refine ⟨T, hST, hw.grow hST hT, rfl, fun a ha => ?_⟩
    obtain rfl := Except.ok.inj ha
    exact hP

/-- The body of a mixin that is found is in use. -/
theorem mixin? (name : String) :
    Tidies S (fun T d => ∀ m ∈ d, m.body ∈ T) (eng.mixin? name) := by
  intro w hw
  refine ⟨S, fun _ hn => hn, hw, rfl, fun d hd m hm => ?_⟩
  obtain rfl : Table.get? name (w.mixinsOf eng.id) = d := Except.ok.inj hd
  exact hw.mixins eng.id _ (Table.mem_of_get? hm)

/-- So is the body of one that is called. -/
theorem mixin (name : String) (position : Value) :
    Tidies S (fun T d => d.body ∈ T) (eng.mixin name position) := by
  refine (mixin? name).bind fun T d _ hd => ?_
  cases d with
  | none => exact throw _
  | some d => exact pure (hd d rfl)

/-- A definition keeps a body that is in use. -/
theorem define (name : String) {d : Mixin} (hd : d.body ∈ S) :
    Tidies S (fun _ _ => True) (eng.define name d) :=
  fun _ hw => ⟨S, fun _ hn => hn, (hw.setMixins eng.id name hd).congr rfl rfl rfl, rfl,
    fun _ _ => trivial⟩

/-- Plugins leave nodes alone. -/
theorem plugin (name : String) (position : Value) :
    Tidies S (fun _ _ => True) (eng.plugin name position) := by
  refine of_eq fun w => ?_
  rw [Engine.exec_plugin]
  exact ⟨rfl, rfl, rfl, rfl⟩

theorem transform (name : String) (q : Plugin) (source : String)
    (attributes : List (Value × Value)) :
    Tidies S (fun _ _ => True) (Engine.transform name q source attributes) :=
  (note _).bind fun _ _ _ _ => ofExcept _ fun _ _ => trivial

theorem track (location : Option String) (path : String) :
    Tidies S (fun _ _ => True) (eng.track location path) := by
  refine of_eq fun w => ?_
  unfold Engine.track
  cases eng.tracker <;> exact ⟨rfl, rfl, rfl, rfl⟩

theorem including (wanted : Wanted) (path : String) (location : Option String) :
    Tidies S (fun _ _ => True) (Engine.including wanted path location) := by
  cases wanted <;> exact note _

/-- Looking for a memo changes nothing. -/
theorem remembered? (n : Node) : Tidies S (fun _ _ => True) (eng.remembered? n) :=
  of_eq fun _ => ⟨rfl, rfl, rfl, rfl⟩

/-- A loader whose nodes are in use may be put in the place of another. -/
theorem setSources (number : Nat) {t : Sources} (ht : t.Within S) :
    Tidies S (fun _ _ => True)
      (modify fun w => { w with loaders := w.loaders.setIfInBounds number (.sources t) }) :=
  fun _ hw => ⟨S, fun _ hn => hn, hw.setSources number ht, rfl, fun _ _ => trivial⟩

/-- What looks at the world first. -/
theorem look {f : World → Rendering α} (hf : ∀ w, w.Tidy S → Tidies S P (f w)) :
    Tidies S P (get >>= f) := by
  intro w hw
  rw [exec_bind, exec_get]
  exact hf w hw w hw

/-- A loader of sources builds trees that last. -/
theorem loadFrom (number : Nat) {t : Sources} (ht : t.Within S) (path canonical : String)
    (wanted : Wanted) :
    Tidies S (fun T l => l.Lasting T) (Engine.loadFrom number t path canonical wanted) := by
  refine (build (Sources.load_grows ht canonical)).bind fun T (s, u) _ ⟨hs, hu⟩ => ?_
  refine (setSources number hu).bind fun U _ hTU _ => ?_
  exact ofExcept _ fun l hl => (Loader.serve_lasting hs hl).mono hTU

/-- What is loaded lasts. -/
theorem load (number : Nat) (path : String) (location : Option String) (wanted : Wanted) :
    Tidies S (fun T l => l.Lasting T) (Engine.load number path location wanted) := by
  refine look fun w hw => ?_
  have hin : (w.loaders.getD number .empty).Lasting S := hw.loaders number
  cases hl : w.loaders.getD number .empty with
  | empty => exact (note _).bind fun _ _ _ _ => throw _
  | custom answer =>
    rw [hl] at hin
    exact ofExcept _ (hin path location wanted)
  | sources t =>
    rw [hl] at hin
    exact (note _).bind fun T _ hST _ => loadFrom number (Sources.Within.mono hST hin) path _ wanted

/-- So does what is requested. -/
theorem request (path : String) (location : Option String) (wanted : Wanted) :
    Tidies S (fun T l => l.Lasting T) (eng.request path location wanted) := by
  unfold Engine.request
  cases eng.loader with
  | none => exact throw _
  | some number => exact (note _).bind fun _ _ _ _ => load number path location wanted

/-- A text has no nodes. -/
theorem text (path : String) (location : Option String) :
    Tidies S (fun _ _ => True) (eng.text path location) := by
  refine (request path location .text).bind fun T l _ _ => ?_
  cases l with
  | text s => exact pure trivial
  | tree d l => exact throw _

/-- A tree that is included is in use. -/
theorem tree (path : String) (location : Option String) :
    Tidies S (fun T r => r.1 ∈ T) (eng.tree path location) := by
  refine (request path location .tree).bind fun T l _ hl => ?_
  cases l with
  | text s => exact throw _
  | tree d location => exact (build (Draft.Lasting.fits hl).grows).bind fun U n _ hn => pure hn

end Tidies
end Rendering
end Trellis
