import Trellis.Proofs.Interpretation.Renderer

/-!
# Proofs — Interpretation — Answers

What the answers of an engine are made of.  All of them but evaluations and definitions are made of
a few steps, so a property of computations that these steps have and that is kept by sequences is
one of the answers (`Rendering.Closed`).  A property that need not hold of steps with loaders and
trackers is still one of the answers that keep away from these (`Rendering.Inner`).

Such properties are that the events before stay as they are (`Rendering.Grows`), that a part of the
world stays which these steps do not touch (`Rendering.closed_leaves`), and that it makes no
difference whether the world is changed before or afterwards (`Rendering.Commutes`).
-/

namespace Trellis

open Rendering (exec exec_bind)

/-- The event is an evaluation. -/
def Event.IsEvaluation : Event → Prop
  | evaluated .. => True
  | _ => False

namespace Rendering

/-- Outcomes that correspond more closely correspond. -/
theorem Matched.mono {α β : Type} {R S : α → β → Prop} {r : Except Fault α} {r' : Except Fault β}
    (h : Matched R r r') (hRS : ∀ a b, R a b → S a b) : Matched S r r' := by
  cases h with
  | ok h => exact .ok (hRS _ _ h)
  | error f => exact .error f

/-- A property of sequences of steps, if it is one of the steps with the heap, with memos and with
plugins, and of looking at these and at mixins. -/
structure Inner (Q : (α : Type) → Rendering α → Prop) : Prop where
  pure {α : Type} (a : α) : Q α (Pure.pure a)
  throw {α : Type} (f : Fault) : Q α (throw f)
  bind {α β : Type} {x : Rendering α} {f : α → Rendering β} :
    Q α x → (∀ a, Q β (f a)) → Q β (x >>= f)
  onHeap {α : Type} (a : Action α) : Q α (Rendering.onHeap a)
  ask {α : Type} {f : World → Rendering α} : (∀ w, Q α (f w)) →
    (∀ w ls ts es, f { w with loaders := ls, trackers := ts, events := es } = f w) →
    Q α (get >>= f)
  transformed (name source : String) (attributes : List (Value × Value)) :
    Q Unit (Rendering.note (.transformed name source attributes))
  setMemo (id : Nat) (m : Memo) : Q Unit (modify fun w => w.setMemo id m)

/-- A property of sequences of steps, if it is one of all steps that neither evaluate nor define. -/
structure Closed (Q : (α : Type) → Rendering α → Prop) : Prop extends Inner Q where
  note (e : Event) : ¬ e.IsEvaluation → Q Unit (Rendering.note e)
  build {α : Type} (b : Draft.Build α) : Q α (Rendering.build b)
  look {α : Type} {f : World → Rendering α} : (∀ w, Q α (f w)) →
    (∀ w es, f { w with events := es } = f w) → Q α (get >>= f)
  setSources (number : Nat) (t : Sources) :
    Q Unit (modify fun w => { w with loaders := w.loaders.setIfInBounds number (.sources t) })
  record (number : Nat) (location : Option String) (path : String) :
    Q Unit (modify fun w =>
      let t := (w.trackers.getD number Tracker.empty).record location path
      { w with trackers := w.trackers.setIfInBounds number t })

/-! ### The answers -/

variable {Q : (α : Type) → Rendering α → Prop} {eng : Engine}

namespace Inner

variable (h : Inner Q)
include h

theorem ofExcept {α : Type} (r : Except Fault α) : Q α (Rendering.ofExcept r) := by
  cases r with
  | ok a => exact h.pure a
  | error f => exact h.throw f

/-- Looking for a mixin looks at the world only. -/
theorem mixin? (name : String) : Q _ (eng.mixin? name) :=
  h.ask (fun _ => h.pure _) fun _ _ _ _ => rfl

/-- A mixin that is missing is complained about. -/
theorem mixin (name : String) (position : Value) : Q _ (eng.mixin name position) := by
  refine h.bind (h.mixin? name) fun d => ?_
  cases d with
  | none => exact h.throw _
  | some d => exact h.pure d

/-- Looking for a plugin looks at the world only. -/
theorem plugin (name : String) (position : Value) : Q _ (eng.plugin name position) :=
  h.bind (h.ask (fun _ => h.pure _) fun _ _ _ _ => rfl) fun _ => h.ofExcept _

/-- A plugin that transforms is noted first. -/
theorem transform (name : String) (q : Plugin) (source : String)
    (attributes : List (Value × Value)) : Q _ (Engine.transform name q source attributes) :=
  h.bind (h.transformed name source attributes) fun _ => h.ofExcept _

/-- Looking for a memo looks at the world only. -/
theorem remembered? (n : Node) : Q _ (eng.remembered? n) :=
  h.ask (fun _ => h.pure _) fun _ _ _ _ => rfl

/-- A memo is written in one step. -/
theorem remember (n : Node) (html : String) : Q _ (eng.remember n html) :=
  h.setMemo _ _

end Inner

namespace Closed

variable (h : Closed Q)
include h

/-- An inclusion is noted before it is made. -/
theorem including (wanted : Wanted) (path : String) (location : Option String) :
    Q _ (Engine.including wanted path location) := by
  cases wanted <;> exact h.note _ fun he => he

/-- Tracking is noted, and then done. -/
theorem track (location : Option String) (path : String) : Q _ (eng.track location path) := by
  unfold Engine.track
  cases eng.tracker with
  | none => exact h.pure ()
  | some number => exact h.bind (h.note _ fun he => he) fun _ => h.record number location path

/-- Loading looks for the source, builds what is missing, and keeps what was built. -/
theorem load (number : Nat) (path : String) (location : Option String) (wanted : Wanted) :
    Q _ (Engine.load number path location wanted) := by
  refine h.look (fun w => ?_) fun _ _ => rfl
  cases w.loaders.getD number .empty with
  | custom answer => exact h.ofExcept _
  | empty => exact h.bind (h.note _ fun he => he) fun _ => h.throw _
  | sources t =>
    refine h.bind (h.note _ fun he => he) fun _ => h.bind (h.build _) fun r => ?_
    exact h.bind (h.setSources number r.2) fun _ => h.ofExcept _

/-- A request is noted, and goes to the loader if there is one. -/
theorem request (path : String) (location : Option String) (wanted : Wanted) :
    Q _ (eng.request path location wanted) := by
  unfold Engine.request
  cases eng.loader with
  | none => exact h.throw _
  | some number => exact h.bind (h.note _ fun he => he) fun _ => h.load number path location wanted

/-- The text of an inclusion is what the loader gives. -/
theorem text (path : String) (location : Option String) : Q _ (eng.text path location) := by
  refine h.bind (h.request path location .text) fun l => ?_
  cases l with
  | text s => exact h.pure s
  | tree d l => exact h.throw _

/-- So is its tree, with the location that it has. -/
theorem tree (path : String) (location : Option String) : Q _ (eng.tree path location) := by
  refine h.bind (h.request path location .tree) fun l => ?_
  cases l with
  | text s => exact h.throw _
  | tree d l => exact h.bind (h.build _) fun _ => h.pure _

end Closed

/-! ### Events stay -/

section

variable {α β : Type}

/-- The computation only adds to the events. -/
def Grows (x : Rendering α) : Prop :=
  ∀ w, ∃ es, (exec x w).2.events = w.events ++ es

namespace Grows

/-- A computation without events keeps those before. -/
theorem of_eq {x : Rendering α} (h : ∀ w, (exec x w).2.events = w.events) : Grows x :=
  fun w => ⟨#[], by rw [h, Array.append_empty]⟩

/-- An event goes behind those before. -/
theorem note (e : Event) : Grows (Rendering.note e) :=
  fun _ => ⟨#[e], rfl⟩

/-- So do the events of computations in a row. -/
theorem bind {x : Rendering α} {f : α → Rendering β} (hx : Grows x) (hf : ∀ a, Grows (f a)) :
    Grows (x >>= f) := by
  refine exec_bind_trans (R := fun w w' => ∃ es, w'.events = w.events ++ es) ?_ hx hf
  rintro u v w ⟨es, h⟩ ⟨es', h'⟩
  exact ⟨es ++ es', by rw [h', h, Array.append_assoc]⟩

theorem onHeap (a : Action α) : Grows (Rendering.onHeap a) :=
  of_eq fun w => by rw [exec_onHeap]

/-- There are never fewer events afterwards. -/
theorem size_le {x : Rendering α} (hx : Grows x) (w : World) :
    w.events.size ≤ (exec x w).2.events.size := by
  obtain ⟨es, h⟩ := hx w
  rw [h, Array.size_append]
  exact Nat.le_add_right _ _

/-- An event that has been noted stays. -/
theorem mem {x : Rendering α} (hx : Grows x) {w : World} {e : Event} (he : e ∈ w.events) :
    e ∈ (exec x w).2.events := by
  obtain ⟨es, h⟩ := hx w
  rw [h]
  exact Array.mem_append_left _ he

end Grows

/-- **Nothing takes events back.** -/
theorem closed_grows : Closed fun _ => Grows where
  pure _ := .of_eq fun _ => rfl
  throw _ := .of_eq fun _ => rfl
  bind := .bind
  onHeap := .onHeap
  ask hf _ := .bind (.of_eq fun _ => rfl) hf
  transformed _ _ _ := .note _
  setMemo _ _ := .of_eq fun _ => rfl
  note e _ := .note e
  build b := .of_eq fun w => by
    -- building fails or takes identities, and adds no event either way
    rw [exec_build]
    cases b.run w.nextNode <;> rfl
  look hf _ := .bind (.of_eq fun _ => rfl) hf
  setSources _ _ := .of_eq fun _ => rfl
  record _ _ _ := .of_eq fun _ => rfl

/-! ### Parts that stay -/

/-- **Only evaluations and definitions reach other parts of a world.**  A part that stays when the
heap, the identities, the memos, the loaders, the trackers and the events change is left alone by all
steps that neither evaluate nor define. -/
theorem closed_leaves {γ : Type} (part : World → γ)
    (hpart : ∀ (w : World) h i ms ls ts es, part { w with
      heap := h, nextNode := i, memos := ms, loaders := ls, trackers := ts, events := es } = part w) :
    Closed fun _ x => ∀ w, part (exec x w).2 = part w where
  pure _ _ := rfl
  throw _ _ := rfl
  bind := exec_bind_trans (R := fun w w' => part w' = part w) fun h h' => h'.trans h
  onHeap a w := by
    rw [exec_onHeap]
    exact hpart w _ _ _ _ _ _
  ask hf _ w := hf w w
  transformed _ _ _ w := hpart w _ _ _ _ _ _
  setMemo _ _ w := hpart w _ _ _ _ _ _
  note _ _ w := hpart w _ _ _ _ _ _
  build b w := by
    rw [exec_build]
    cases b.run w.nextNode with
    | error f => rfl
    | ok r => exact hpart w _ _ _ _ _ _
  look hf _ w := hf w w
  setSources _ _ w := hpart w _ _ _ _ _ _
  record _ _ _ w := hpart w _ _ _ _ _ _

/-! ### Changes that commute -/

/-- The computation does the same whether or not `f` is applied to the world. -/
def Commutes (f : World → World) (x : Rendering α) : Prop :=
  ∀ w, exec x (f w) = ((exec x w).1, f (exec x w).2)

namespace Commutes

variable {f : World → World}

theorem pure (a : α) : Commutes f (Pure.pure a) := fun _ => rfl

theorem throw (e : Fault) : Commutes f (throw e : Rendering α) := fun _ => rfl

/-- Computations in a row commute with a change as they do one by one. -/
theorem bind {x : Rendering α} {g : α → Rendering β} (hx : Commutes f x)
    (hg : ∀ a, Commutes f (g a)) : Commutes f (x >>= g) := by
  intro w
  rw [exec_bind, exec_bind, hx w]
  rcases exec x w with ⟨_ | a, w₁⟩
  · rfl
  · exact hg a w₁

/-- What looks at the world and finds the same. -/
theorem get {g : World → Rendering β} (hg : ∀ w, Commutes f (g w)) (h : ∀ w, g (f w) = g w) :
    Commutes f (MonadState.get >>= g) := by
  intro w
  rw [exec_bind, exec_bind, exec_get, exec_get]
  simp only [h]
  exact hg w w

/-- A step commutes with a change if it makes no difference which is made first. -/
theorem modify {u : World → World} (h : ∀ w, u (f w) = f (u w)) : Commutes f (modify u) := by
  intro w
  rw [exec_modify, exec_modify, h]

end Commutes

end

end Rendering

/-- The event of a plugin may as well be added after the events have been changed. -/
def Event.Passes (es : Array Event → Array Event) : Prop :=
  ∀ (events : Array Event) (name source : String) (attributes : List (Value × Value)),
    es (events.push (.transformed name source attributes)) =
      (es events).push (.transformed name source attributes)

/-- The world with other loaders, trackers and events. -/
def World.around (ls : Array Loader → Array Loader) (ts : Array Tracker → Array Tracker)
    (es : Array Event → Array Event) (w : World) : World :=
  { w with loaders := ls w.loaders, trackers := ts w.trackers, events := es w.events }

/-- **What keeps away from loaders and trackers does not care for them**, nor for the events before
its own. -/
theorem Rendering.inner_commutes (ls : Array Loader → Array Loader)
    (ts : Array Tracker → Array Tracker) {es : Array Event → Array Event} (hes : Event.Passes es) :
    Inner fun _ => Commutes (World.around ls ts es) where
  pure := .pure
  throw := .throw
  bind := .bind
  onHeap a w := by
    rw [exec_onHeap, exec_onHeap]
    rfl
  ask hf h := .get hf fun w => h w _ _ _
  transformed name source attributes := .modify fun w => by
    unfold World.around
    rw [hes]
  setMemo _ _ := .modify fun _ => rfl

end Trellis
