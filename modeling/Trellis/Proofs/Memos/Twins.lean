import Trellis.Proofs.Memos.Policy

/-!
# Proofs — Memos — Twins

Two renderings of the same nodes in worlds that differ in what is remembered only (`Twin`), side by
side.  In both worlds an engine has remembered, beyond a common base of memos, nothing but static
markup, so it does not matter which of the nodes it has remembered.

`Mirrors` says that the second rendering ends as the first does, unless the first runs out of steps,
and that the results satisfy what a policy promises.  The second is given for every depth, and is
followed at all depths that are large enough.
-/

namespace Trellis

open Rendering (exec exec_bind exec_bind_ok exec_bind_error exec_depths_congr exec_depths_of_succ
  exec_depths_bind_ok exec_depths_bind_error Matched)

/-! ### What does not look at memos -/

/-- A computation that neither looks at memos nor changes them. -/
def Blind {α : Type} (x : Rendering α) : Prop :=
  ∀ w memos, exec x { w with memos } = ((exec x w).1, { (exec x w).2 with memos })

namespace Blind

variable {α β : Type}

theorem pure (a : α) : Blind (Pure.pure a) := fun _ _ => rfl

theorem throw (f : Fault) : Blind (throw f : Rendering α) := fun _ _ => rfl

theorem ofExcept (r : Except Fault α) : Blind (Rendering.ofExcept r) := by
  intro w memos
  rw [Rendering.exec_ofExcept, Rendering.exec_ofExcept]

/-- Computations in a row see no memos if none of them does. -/
theorem bind {x : Rendering α} {f : α → Rendering β} (hx : Blind x) (hf : ∀ a, Blind (f a)) :
    Blind (x >>= f) := by
  intro w memos
  rw [exec_bind, exec_bind, hx w memos]
  rcases exec x w with ⟨_ | a, w₁⟩
  · rfl
  · exact hf a w₁ memos

/-- What looks at the world otherwise. -/
theorem get {f : World → Rendering β} (hf : ∀ w, Blind (f w))
    (h : ∀ w memos, f { w with memos } = f w) : Blind (MonadState.get >>= f) := by
  intro w memos
  rw [exec_bind, exec_bind, Rendering.exec_get, Rendering.exec_get]
  simp only [h]
  exact hf w w memos

/-- A change that leaves memos alone sees none. -/
theorem modify {f : World → World} (h : ∀ w memos, f { w with memos } = { f w with memos }) :
    Blind (modify f) := by
  intro w memos
  rw [Rendering.exec_modify, Rendering.exec_modify, h]

theorem note (e : Event) : Blind (Rendering.note e) := modify fun _ _ => rfl

/-- Actions on the heap see no memos. -/
theorem onHeap (a : Action α) : Blind (Rendering.onHeap a) := by
  intro w memos
  rw [Rendering.exec_onHeap, Rendering.exec_onHeap]

theorem build (b : Draft.Build α) : Blind (Rendering.build b) := by
  intro w memos
  rw [Rendering.exec_build, Rendering.exec_build]
  dsimp only
  cases b.run w.nextNode <;> rfl

variable (eng : Engine)

/-- Looking for a mixin sees none. -/
theorem mixin? (name : String) : Blind (eng.mixin? name) :=
  get (fun _ => pure _) fun _ _ => rfl

/-- Neither does a definition. -/
theorem define (name : String) (m : Mixin) : Blind (eng.define name m) :=
  bind (mixin? eng name) fun _ => bind (note _) fun _ => modify fun _ _ => rfl

theorem plugin (name : String) (position : Value) : Blind (eng.plugin name position) :=
  bind (get (fun _ => pure _) fun _ _ => rfl) fun _ => ofExcept _

theorem track (location : Option String) (path : String) : Blind (eng.track location path) := by
  unfold Engine.track
  cases eng.tracker with
  | none => exact pure ()
  | some number => exact bind (note _) fun _ => modify fun _ _ => rfl

/-- Neither does loading. -/
theorem load (number : Nat) (path : String) (location : Option String) (wanted : Wanted) :
    Blind (Engine.load number path location wanted) := by
  unfold Engine.load
  refine get (fun w => ?_) fun w memos => rfl
  dsimp only
  cases w.loaders.getD number .empty with
  | custom answer => exact ofExcept _
  | empty => exact bind (note _) fun _ => throw _
  | sources t =>
    refine bind (note _) fun _ => bind (build _) fun r => ?_
    exact bind (modify fun _ _ => rfl) fun _ => ofExcept _

end Blind

/-! ### Worlds -/

variable {eng : Engine}

namespace Policy

variable (pol : Policy eng) (base : Nat → Memo)

/-- What is taken from the base is admitted. -/
def AdmitsBase : Prop :=
  ∀ id html, eng.taken? (base id) = some html → pol.piece html

/-- A world that is admitted, in which nothing but static markup is remembered beyond the base. -/
structure Keeps (S : Set Node) (w : World) : Prop where
  admits : pol.Admits S w
  memos : ∀ id, w.memo id = base id ∨ Made eng base S id (w.memo id)

/-- Two such worlds that differ in what is remembered only. -/
structure Twin (S : Set Node) (w v : World) : Prop where
  left : pol.Keeps base S w
  right : pol.Keeps base S v
  forget : v.forget = w.forget

variable {pol base} {S : Set Node} {w v : World}

/-- What a policy keeps, memos are faithful to. -/
theorem Keeps.faithful (h : pol.Keeps base S w) : Faithful eng base S w :=
  ⟨h.admits.census, h.memos⟩

/-- Worlds that differ in what is remembered only are admitted alike. -/
theorem Admits.forget (h : pol.Admits S w) (hf : v.forget = w.forget) : pol.Admits S v :=
  h.congr (congrArg World.nextNode hf : v.forget.nextNode = w.forget.nextNode)
    (congrArg World.mixins hf : v.forget.mixins = w.forget.mixins)
    (congrArg World.loaders hf : v.forget.loaders = w.forget.loaders)
    (congrArg World.registries hf : v.forget.registries = w.forget.registries)

/-- Worlds that differ in faithful memos are kept alike. -/
theorem Keeps.of_faithful (h : pol.Keeps base S w) (hv : Faithful eng base S v)
    (hf : v.forget = w.forget) : pol.Keeps base S v :=
  ⟨h.admits.forget hf, hv.memos⟩

/-- A world that is kept is its own twin. -/
theorem Twin.refl (h : pol.Keeps base S w) : pol.Twin base S w w :=
  ⟨h, h, rfl⟩

/-- Twins are twins of each other. -/
theorem Twin.symm (h : pol.Twin base S w v) : pol.Twin base S v w :=
  ⟨h.right, h.left, h.forget.symm⟩

/-! ### Side by side -/

variable {α β γ δ : Type}

variable (pol base) in
/-- From twin worlds, `x` runs out of steps, or `y` ends as `x` does at all depths that are large
enough, in twin worlds and with results that `R` relates. -/
def Mirrors (S : Set Node) (R : Set Node → α → β → Prop) (x : Rendering α)
    (y : Nat → Rendering β) : Prop :=
  ∀ w v, pol.Twin base S w v →
    (exec x w).1 = .error .exhausted ∨
    ∃ o, (∃ least, ∀ depth ≥ least, exec (y depth) v = o) ∧
      ∃ T, S ⊆ T ∧ Matched (R T) (exec x w).1 o.1 ∧ pol.Twin base T (exec x w).2 o.2

/-- Both results are the same, and it satisfies `P`. -/
abbrev Both (P : Set Node → α → Prop) : Set Node → α → α → Prop :=
  fun T a b => a = b ∧ P T a

/-- Both steps in a group give the same, of which `P` holds, and the same is awaited then. -/
abbrev Stepped (P : α → Prop) : Set Node → α × Group → α × Group → Prop :=
  fun _ r r' => r.1 = r'.1 ∧ r.2.pending = r'.2.pending ∧ P r.1

namespace Mirrors

variable {R : Set Node → α → β → Prop} {Q : Set Node → γ → δ → Prop}

theorem pure {a : α} {b : β} (h : R S a b) :
    pol.Mirrors base S R (Pure.pure a) fun _ => Pure.pure b :=
  fun _ _ hw => .inr ⟨_, ⟨0, fun _ _ => rfl⟩, S, fun _ hn => hn, .ok h, hw⟩

theorem throw (f : Fault) : pol.Mirrors base S R (throw f) fun _ => throw f :=
  fun _ _ hw => .inr ⟨_, ⟨0, fun _ _ => rfl⟩, S, fun _ hn => hn, .error f, hw⟩

/-- A first rendering that runs out of steps is mirrored by anything. -/
theorem exhausted {y : Nat → Rendering β} :
    pol.Mirrors base S R (MonadExcept.throw Fault.exhausted : Rendering α) y :=
  fun _ _ _ => .inl rfl

/-- What does not look at memos does the same in both worlds. -/
theorem of_blind {P : Set Node → α → Prop} {x : Rendering α} (hx : Blind x)
    (hP : pol.Grants S P x) : pol.Mirrors base S (Both P) x fun _ => x := by
  intro w v hw
  -- the second world is the first one with other memos
  have hv : exec x v = ((exec x w).1, { (exec x w).2 with memos := v.memos }) := by
    have he : v = { w with memos := v.memos } := by
      have := congrArg (fun u : World => { u with memos := v.memos }) hw.forget
      exact this
    rw [he]
    exact hx w v.memos
  have hmemos : (exec x w).2.memos = w.memos := by
    have := hx w w.memos
    exact congrArg (fun o => o.2.memos) this
  obtain ⟨T, hST, hT, hp⟩ := hP w hw.left.admits
  refine .inr ⟨_, ⟨0, fun _ _ => rfl⟩, T, hST, ?_, ?_⟩
  · rw [hv]
    cases hr : (exec x w).1 with
    | error f => exact .error f
    | ok a => exact .ok ⟨rfl, hp a hr⟩
  · refine ⟨⟨hT, fun id => ?_⟩, ⟨?_, fun id => ?_⟩, ?_⟩
    · rw [World.memo, hmemos]
      exact (hw.left.memos id).imp_right (Made.mono hST)
    · rw [hv]
      exact hT.forget rfl
    · rw [hv]
      exact (hw.right.memos id).imp_right (Made.mono hST)
    · rw [hv]
      rfl

/-- It matters only what the second does at large depths. -/
theorem congr {x : Rendering α} {y z : Nat → Rendering β} (h : pol.Mirrors base S R x y)
    (least : Nat) (hz : ∀ depth ≥ least, z depth = y depth) : pol.Mirrors base S R x z := by
  intro w v hw
  refine (h w v hw).imp_right ?_
  rintro ⟨o, hy, he⟩
  exact ⟨o, exec_depths_congr hy least hz, he⟩

/-- The second may be one group deeper. -/
theorem of_succ {x : Rendering α} {y : Nat → Rendering β}
    (h : pol.Mirrors base S R x fun depth => y (depth + 1)) : pol.Mirrors base S R x y := by
  intro w v hw
  refine (h w v hw).imp_right ?_
  rintro ⟨o, hy, he⟩
  exact ⟨o, exec_depths_of_succ hy, he⟩

/-- **One after the other.**  What follows is mirrored over the nodes in use by then. -/
theorem bind {x : Rendering α} {y : Nat → Rendering β} {f : α → Rendering γ}
    {g : Nat → β → Rendering δ} (hx : pol.Mirrors base S R x y)
    (hf : ∀ T a b, S ⊆ T → R T a b → pol.Mirrors base T Q (f a) fun depth => g depth b) :
    pol.Mirrors base S Q (x >>= f) fun depth => y depth >>= g depth := by
  intro w v hw
  have hx := hx w v hw
  rcases hr : exec x w with ⟨r, w₁⟩
  rw [hr] at hx
  rcases hx with rfl | ⟨⟨r', v₁⟩, hy, T, hST, hm, hT⟩
  · left
    rw [exec_bind_error hr]
  · cases hm with
    | error e =>
      right
      rw [exec_bind_error hr]
      exact ⟨_, exec_depths_bind_error hy, T, hST, .error e, hT⟩
    | ok hR =>
      rw [exec_bind_ok hr]
      refine (hf T _ _ hST hR w₁ v₁ hT).imp_right ?_
      rintro ⟨o, hg, U, hTU, hm, hU⟩
      exact ⟨o, exec_depths_bind_ok hy hg, U, fun _ hn => hTU (hST hn), hm, hU⟩

/-- After equal results, what follows is about one of them. -/
theorem bind_both {P : Set Node → α → Prop} {x : Rendering α} {y : Nat → Rendering α}
    {f : α → Rendering γ} {g : Nat → α → Rendering δ} (hx : pol.Mirrors base S (Both P) x y)
    (hf : ∀ T a, S ⊆ T → P T a → pol.Mirrors base T Q (f a) fun depth => g depth a) :
    pol.Mirrors base S Q (x >>= f) fun depth => y depth >>= g depth := by
  refine hx.bind fun T a b hST hab => ?_
  obtain ⟨rfl, ha⟩ := hab
  exact hf T a hST ha

/-- After a step in a group, what follows is about one result and groups that await the same. -/
theorem bind_stepped {P : α → Prop} {x : Rendering (α × Group)} {y : Nat → Rendering (α × Group)}
    {f : α × Group → Rendering γ} {h : Nat → α × Group → Rendering δ}
    (hx : pol.Mirrors base S (Stepped P) x y)
    (hf : ∀ T a g g', S ⊆ T → g.pending = g'.pending → P a →
      pol.Mirrors base T Q (f (a, g)) fun depth => h depth (a, g')) :
    pol.Mirrors base S Q (x >>= f) fun depth => y depth >>= h depth := by
  refine hx.bind fun T r r' hST hr => ?_
  obtain ⟨a, g⟩ := r
  obtain ⟨a', g'⟩ := r'
  obtain ⟨rfl, hg, ha⟩ := hr
  exact hf T a g g' hST hg ha

/-- What follows an outcome is about the result that it gives. -/
theorem ofCause_bind (r : Except Cause α) {f : α → Rendering γ} {g : Nat → α → Rendering δ}
    (hf : ∀ a, r = .ok a → pol.Mirrors base S Q (f a) fun depth => g depth a) :
    pol.Mirrors base S Q (Rendering.ofCause r >>= f) fun depth =>
      Rendering.ofCause r >>= g depth := by
  cases r with
  | error c => exact throw (.basic c)
  | ok a => exact hf a rfl

/-- The outcome of an operation is the same in twins. -/
theorem ofExcept_bind (r : Except Fault α) {f : α → Rendering γ} {g : Nat → α → Rendering δ}
    (hf : ∀ a, r = .ok a → pol.Mirrors base S Q (f a) fun depth => g depth a) :
    pol.Mirrors base S Q (Rendering.ofExcept r >>= f) fun depth =>
      Rendering.ofExcept r >>= g depth := by
  cases r with
  | error c => exact throw c
  | ok a => exact hf a rfl

/-- A choice by the same condition is mirrored if both ways are. -/
theorem ite (c : Bool) {x x' : Rendering α} {y y' : Nat → Rendering β}
    (h : c = true → pol.Mirrors base S R x y) (h' : c = false → pol.Mirrors base S R x' y') :
    pol.Mirrors base S R (if c then x else x') fun depth => if c then y depth else y' depth := by
  cases c with
  | true => exact h rfl
  | false => exact h' rfl

/-! ### Steps -/

/-- Of which nothing is to be said. -/
abbrev Free : Set Node → α → Prop :=
  fun _ _ => True

/-- The same event is noted in twins. -/
theorem note (e : Event) :
    pol.Mirrors base S (Both Free) (Rendering.note e) fun _ => Rendering.note e :=
  of_blind (.note e) (.of_eq fun _ => ⟨rfl, rfl, rfl, rfl⟩)

/-- The same is done to the heap, which twins share. -/
theorem onHeap (a : Action α) :
    pol.Mirrors base S (Both Free) (Rendering.onHeap a) fun _ => Rendering.onHeap a := by
  refine of_blind (.onHeap a) (.of_eq fun w => ?_)
  rw [Rendering.exec_onHeap]
  exact ⟨rfl, rfl, rfl, rfl⟩

end Mirrors

end Policy
end Trellis
