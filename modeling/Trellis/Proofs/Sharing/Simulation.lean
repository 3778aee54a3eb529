import Trellis.Proofs.Sharing.Sources
import Trellis.Proofs.Sharing.Static

/-!
# Proofs — Sharing — Simulation

A rendering in a world that engines share, followed step by step in a world of one engine's own.

* `World.Sound`: the nodes in the shared world are in use, and every memo is markup that the plain
  engine of its owner makes of the node at any place (`Fixed`).
* `World.Alike i`: engine `i` finds the same in both worlds, up to identities.
* `Sim`: from such worlds, the second rendering does what the first does, unless the first runs out
  of steps.  The second may take more steps, since it remembers nothing: it is given for every
  depth, and is followed at all depths that are large enough.
-/

namespace Trellis

open Rendering (exec exec_bind exec_bind_ok exec_bind_error exec_depths_congr exec_depths_of_succ
  exec_depths_bind_ok exec_depths_bind_error Matched)

/-! ### Worlds -/

/-- The plain engine makes `html` of every copy of a node, which is a tag, at any place, in any
group that skips nothing and in any world, and changes nothing. -/
structure Fixed (eng : Engine) (n : Node) (html : Value) : Prop where
  role : Role.ofValue n.symbol = .ok .tag
  exec : ∃ least, ∀ depth ≥ least, ∀ n' p g w, n'.bare = n.bare → g.pending = none →
    exec (Render.tag eng.plain (Render.body eng.plain depth) p n' g) w = (.ok (html, g), w)

namespace World

/-- The loader of a number. -/
def loader (w : World) (number : Nat) : Loader :=
  w.loaders.getD number .empty

/-- The mixins of an engine without identities. -/
def bareMixins (w : World) (i : Nat) : List (String × Mixin) :=
  (w.mixinsOf i).map fun e => (e.1, e.2.bare)

/-- All nodes are in use, and the memos are as they should be. -/
structure Sound (team : Nat → Engine) (S : Set Node) (w : World) : Prop where
  census : Census S w.nextNode
  memos : ∀ id m, w.memos.lookup id = some m →
    ∃ n ∈ S, n.id = id ∧ ∃ html i, m = ⟨some html, some i⟩ ∧ Fixed (team i) n html
  mixins : ∀ i, ∀ e ∈ w.mixinsOf i, e.2.body ∈ S
  loaders : ∀ k, (w.loader k).Within S

/-- Engine `i` finds in `v` what it finds in `w`, up to identities. -/
structure Alike (i : Nat) (w v : World) : Prop where
  registries : v.registries = w.registries
  loaders : ∀ k, (v.loader k).answers = (w.loader k).answers
  size : v.mixins.size = w.mixins.size
  mixins : v.bareMixins i = w.bareMixins i

/-- What engine `i` leaves to the others between `w` and `w'`. -/
structure Frame (i : Nat) (w w' : World) : Prop where
  registries : w'.registries = w.registries
  loaders : ∀ k, (w'.loader k).answers = (w.loader k).answers
  size : w'.mixins.size = w.mixins.size
  mixins : ∀ j, j ≠ i → w'.mixinsOf j = w.mixinsOf j

theorem Frame.refl (i : Nat) (w : World) : Frame i w w :=
  ⟨rfl, fun _ => rfl, rfl, fun _ _ => rfl⟩

/-- What is left to others by two steps is left by both. -/
theorem Frame.trans {i : Nat} {w w' w'' : World} (h : Frame i w w') (h' : Frame i w' w'') :
    Frame i w w'' :=
  ⟨h'.1.trans h.1, fun k => (h'.2 k).trans (h.2 k), h'.3.trans h.3,
    fun j hj => (h'.4 j hj).trans (h.4 j hj)⟩

/-- The other engines find the same as before. -/
theorem Alike.frame {i j : Nat} {w w' v : World} (h : Alike j w v) (hf : Frame i w w')
    (hij : j ≠ i) : Alike j w' v := by
  refine ⟨h.1.trans hf.1.symm, fun k => (h.2 k).trans (hf.2 k).symm, h.3.trans hf.3.symm, ?_⟩
  rw [h.mixins, bareMixins, bareMixins, hf.mixins j hij]

/-- The memos of nodes in use stay right when more nodes are used. -/
theorem Sound.grow {team : Nat → Engine} {S T : Set Node} {w : World} {next : Nat}
    (h : Sound team S w) (hST : S ⊆ T) (hT : Census T next) :
    Sound team T { w with nextNode := next } := by
  refine ⟨hT, fun id m hm => ?_, fun i e he => hST (h.mixins i e he),
    fun k => (h.loaders k).mono hST⟩
  obtain ⟨n, hn, hm⟩ := h.memos id m hm
  exact ⟨n, hST hn, hm⟩

/-- One more memo that is as it should be. -/
theorem Sound.setMemo {team : Nat → Engine} {S : Set Node} {w : World} (h : Sound team S w)
    {n : Node} (hn : n ∈ S) {i : Nat} {html : Value} (hf : Fixed (team i) n html) :
    Sound team S (w.setMemo n.id ⟨some html, some i⟩) := by
  refine ⟨h.census, fun id m hm => ?_, h.mixins, h.loaders⟩
  rw [World.setMemo, List.lookup_cons] at hm
  split at hm
  · next he =>
    obtain rfl := Option.some.inj hm
    exact ⟨n, hn, (beq_iff_eq.mp he).symm, html, i, rfl, hf⟩
  · exact h.memos id m hm

end World

open World (Sound Alike Frame)

/-- The worlds that engine `i` runs in: the shared one and its own. -/
structure Related (team : Nat → Engine) (i : Nat) (S : Set Node) (w v : World) : Prop where
  sound : Sound team S w
  alike : Alike i w v
  heap : v.heap = w.heap
  events : v.events = w.events

/-- Both worlds note the same. -/
theorem Related.note {team : Nat → Engine} {i : Nat} {S : Set Node} {w v : World}
    (h : Related team i S w v) (e : Event) :
    Related team i S { w with events := w.events.push e }
      { v with events := v.events.push e } := by
  refine ⟨⟨h.sound.1, h.sound.2, h.sound.3, h.sound.4⟩,
    ⟨h.alike.1, h.alike.2, h.alike.3, h.alike.4⟩, h.heap, ?_⟩
  rw [h.events]

/-! ### Simulations -/

/-- From `w`, one computation ends in `o` and another in `o'`: in related worlds, and with outcomes
that `R` relates over the nodes in use then. -/
def Ends (team : Nat → Engine) (i : Nat) (S : Set Node) {α β : Type} (R : Set Node → α → β → Prop)
    (w : World) (o : Except Fault α × World) (o' : Except Fault β × World) : Prop :=
  ∃ T, S ⊆ T ∧ Matched (R T) o.1 o'.1 ∧ Related team i T o.2 o'.2 ∧ Frame i w o.2

/-- From related worlds, `x` runs out of steps, or `y` ends as `x` does, in the same way at all
depths that are large enough. -/
def Sim (team : Nat → Engine) (i : Nat) (S : Set Node) {α β : Type} (R : Set Node → α → β → Prop)
    (x : Rendering α) (y : Nat → Rendering β) : Prop :=
  ∀ w v, Related team i S w v →
    (exec x w).1 = .error .exhausted ∨
    ∃ o, (∃ least, ∀ depth ≥ least, exec (y depth) v = o) ∧ Ends team i S R w (exec x w) o

/-- The results are equal. -/
abbrev Same {α : Type} : Set Node → α → α → Prop :=
  fun _ a b => a = b

/-- The node is in use, and the other is a copy. -/
abbrev Copy : Set Node → Node → Node → Prop :=
  fun S n n' => n ∈ S ∧ n'.bare = n.bare

variable {team : Nat → Engine} {i : Nat} {S : Set Node} {α β γ δ : Type}
variable {R : Set Node → α → β → Prop} {Q : Set Node → γ → δ → Prop}

namespace Ends

/-- Outcomes that correspond end alike in worlds that do. -/
theorem of_matched {w v : World} (hw : Related team i S w v) {r : Except Fault α}
    {r' : Except Fault β} (h : Matched (R S) r r') : Ends team i S R w (r, w) (r', v) :=
  ⟨S, fun _ hn => hn, h, hw, .refl i w⟩

/-- Ending from a later world, over the nodes in use by then, is ending. -/
theorem later {T : Set Node} {w w₁ : World} {o : Except Fault α × World}
    {o' : Except Fault β × World} (h : Ends team i T R w₁ o o') (hST : S ⊆ T)
    (hf : Frame i w w₁) : Ends team i S R w o o' := by
  obtain ⟨U, hTU, hm, hr, hf'⟩ := h
  exact ⟨U, fun _ hn => hTU (hST hn), hm, hr, hf.trans hf'⟩

end Ends

namespace Sim

/-- Computations that end at once, the second at every depth alike. -/
theorem of_ends {x : Rendering α} {y : Rendering β}
    (h : ∀ w v, Related team i S w v → Ends team i S R w (exec x w) (exec y v)) :
    Sim team i S R x fun _ => y :=
  fun w v hw => .inr ⟨_, ⟨0, fun _ _ => rfl⟩, h w v hw⟩

/-- Computations that change nothing. -/
theorem of_outcome {x : Rendering α} {y : Rendering β} {r : World → Except Fault α}
    {r' : World → Except Fault β} (hx : ∀ w, exec x w = (r w, w)) (hy : ∀ v, exec y v = (r' v, v))
    (h : ∀ w v, Related team i S w v → Matched (R S) (r w) (r' v)) :
    Sim team i S R x fun _ => y := by
  refine of_ends fun w v hw => ?_
  rw [hx, hy]
  exact .of_matched hw (h w v hw)

/-- The outcomes of operations end alike if they correspond. -/
theorem ofExcept {r : Except Fault α} {r' : Except Fault β} (h : Matched (R S) r r') :
    Sim team i S R (Rendering.ofExcept r) fun _ => Rendering.ofExcept r' :=
  of_outcome (Rendering.exec_ofExcept r) (Rendering.exec_ofExcept r') fun _ _ _ => h

theorem ofCause (r : Except Cause α) :
    Sim team i S Same (Rendering.ofCause r) fun _ => Rendering.ofCause r :=
  of_outcome (Rendering.exec_ofCause r) (Rendering.exec_ofCause r) fun _ _ _ =>
    Matched.same _

theorem pure {a : α} {b : β} (h : R S a b) : Sim team i S R (Pure.pure a) fun _ => Pure.pure b :=
  of_outcome (fun _ => rfl) (fun _ => rfl) fun _ _ _ => .ok h

theorem throw (f : Fault) : Sim team i S R (throw f) fun _ => throw f :=
  of_outcome (fun _ => rfl) (fun _ => rfl) fun _ _ _ => .error f

/-- A first rendering that runs out of steps is followed by anything. -/
theorem exhausted {y : Nat → Rendering β} :
    Sim team i S R (MonadExcept.throw Fault.exhausted : Rendering α) y :=
  fun _ _ _ => .inl rfl

/-- It matters only what the second does at large depths. -/
theorem congr {x : Rendering α} {y z : Nat → Rendering β} (h : Sim team i S R x y) (least : Nat)
    (hz : ∀ depth ≥ least, z depth = y depth) : Sim team i S R x z := by
  intro w v hw
  refine (h w v hw).imp_right ?_
  rintro ⟨o, hy, he⟩
  exact ⟨o, exec_depths_congr hy least hz, he⟩

/-- The second may be one group deeper. -/
theorem of_succ {x : Rendering α} {y : Nat → Rendering β}
    (h : Sim team i S R x fun depth => y (depth + 1)) : Sim team i S R x y := by
  intro w v hw
  refine (h w v hw).imp_right ?_
  rintro ⟨o, hy, he⟩
  exact ⟨o, exec_depths_of_succ hy, he⟩

/-- **One after the other.**  What follows is a simulation over the nodes in use by then. -/
theorem bind {x : Rendering α} {y : Nat → Rendering β} {f : α → Rendering γ}
    {g : Nat → β → Rendering δ} (hx : Sim team i S R x y)
    (hf : ∀ T a b, S ⊆ T → R T a b → Sim team i T Q (f a) fun depth => g depth b) :
    Sim team i S Q (x >>= f) fun depth => y depth >>= g depth := by
  intro w v hw
  have hx := hx w v hw
  rcases hr : exec x w with ⟨r, w₁⟩
  rw [hr] at hx
  rcases hx with rfl | ⟨⟨r', v₁⟩, hy, T, hST, hm, hw₁, hfr⟩
  · left
    rw [exec_bind_error hr]
  · cases hm with
    | error e =>
        right
        rw [exec_bind_error hr]
        exact ⟨_, exec_depths_bind_error hy, T, hST, .error e, hw₁, hfr⟩
    | ok hR =>
        rw [exec_bind_ok hr]
        refine (hf T _ _ hST hR w₁ v₁ hw₁).imp_right ?_
        rintro ⟨o, hg, he⟩
        exact ⟨o, exec_depths_bind_ok hy hg, he.later hST hfr⟩

/-- After equal results, what follows is about one of them. -/
theorem bind_same {x : Rendering α} {y : Nat → Rendering α} {f : α → Rendering γ}
    {g : Nat → α → Rendering δ} (hx : Sim team i S Same x y)
    (hf : ∀ T a, S ⊆ T → Sim team i T Q (f a) fun depth => g depth a) :
    Sim team i S Q (x >>= f) fun depth => y depth >>= g depth := by
  refine hx.bind fun T a b hST hab => ?_
  obtain rfl := hab
  exact hf T a hST

/-- What follows an outcome is about the result that it gives. -/
theorem ofCause_bind (r : Except Cause α) {f : α → Rendering γ} {g : Nat → α → Rendering δ}
    (hf : ∀ a, r = .ok a → Sim team i S Q (f a) fun depth => g depth a) :
    Sim team i S Q (Rendering.ofCause r >>= f) fun depth => Rendering.ofCause r >>= g depth := by
  cases r with
  | error c => exact throw (.basic c)
  | ok a => exact hf a rfl

/-- A choice by the same condition is followed if both ways are. -/
theorem ite (c : Bool) {x x' : Rendering α} {y y' : Nat → Rendering β}
    (h : c = true → Sim team i S R x y) (h' : c = false → Sim team i S R x' y') :
    Sim team i S R (if c then x else x') fun depth => if c then y depth else y' depth := by
  cases c with
  | true => exact h rfl
  | false => exact h' rfl

/-! ### Steps -/

/-- The same event is noted on both sides. -/
theorem note (e : Event) : Sim team i S Same (Rendering.note e) fun _ => Rendering.note e :=
  of_ends fun _ _ hw => ⟨S, fun _ hn => hn, .ok rfl, hw.note e, rfl, fun _ => rfl, rfl, fun _ _ => rfl⟩

/-- The same is done to both heaps, which are equal. -/
theorem onHeap (a : Action α) :
    Sim team i S Same (Rendering.onHeap a) fun _ => Rendering.onHeap a := by
  refine of_ends fun w v hw => ⟨S, fun _ hn => hn, ?_⟩
  rw [Rendering.exec_onHeap, Rendering.exec_onHeap, hw.heap]
  refine ⟨Matched.same _, ⟨?_, ?_, rfl, hw.events⟩, ?_⟩
  · exact ⟨hw.sound.1, hw.sound.2, hw.sound.3, hw.sound.4⟩
  · exact ⟨hw.alike.1, hw.alike.2, hw.alike.3, hw.alike.4⟩
  · exact ⟨rfl, fun _ => rfl, rfl, fun _ _ => rfl⟩

end Sim
end Trellis
