import Trellis.Render.Setup
import Mathlib

/-!
# Proofs — Sharing — Runs

What a rendering does in a world, step by step (`Rendering.exec`); outcomes that correspond to each
other (`Rendering.Matched`); what holds of every result, whatever the world (`Rendering.Yields`);
and what a loader of sources does (`Engine.exec_load`).
-/

namespace Trellis

namespace Rendering

variable {α β : Type}

/-- What a computation does in a world: its outcome, and the world it leaves. -/
def exec (x : Rendering α) (w : World) : Except Fault α × World :=
  StateT.run (ExceptT.run x) w

@[simp] theorem exec_pure (a : α) (w : World) : exec (pure a) w = (.ok a, w) := rfl

@[simp] theorem exec_throw (f : Fault) (w : World) :
    exec (throw f : Rendering α) w = (.error f, w) := rfl

@[simp] theorem exec_get (w : World) : exec (get : Rendering World) w = (.ok w, w) := rfl

@[simp] theorem exec_set (u w : World) : exec (set u : Rendering Unit) w = (.ok (), u) := rfl

/-- A change of the world gives nothing. -/
@[simp] theorem exec_modify (f : World → World) (w : World) :
    exec (modify f : Rendering Unit) w = (.ok (), f w) := rfl

/-- Computations in a row go on in the world that the first one leaves, unless it fails. -/
theorem exec_bind (x : Rendering α) (f : α → Rendering β) (w : World) :
    exec (x >>= f) w =
      match exec x w with
      | (.ok a, w') => exec (f a) w'
      | (.error e, w') => (.error e, w') := by
  simp only [exec, ExceptT.run_bind, StateT.run_bind]
  change (match StateT.run (ExceptT.run x) w with | (a, s) => _) = _
  rcases h : StateT.run (ExceptT.run x) w with ⟨_ | _, _⟩ <;> rfl

/-- After a result, the next computation goes on with it. -/
theorem exec_bind_ok {x : Rendering α} {w w' : World} {a : α} (h : exec x w = (.ok a, w'))
    (f : α → Rendering β) : exec (x >>= f) w = exec (f a) w' := by
  rw [exec_bind, h]

/-- After a failure, nothing is done. -/
theorem exec_bind_error {x : Rendering α} {w w' : World} {e : Fault}
    (h : exec x w = (.error e, w')) (f : α → Rendering β) :
    exec (x >>= f) w = (.error e, w') := by
  rw [exec_bind, h]

/-- What both steps keep to is kept to by the two. -/
theorem exec_bind_trans {R : World → World → Prop} (hR : ∀ {u v w}, R u v → R v w → R u w)
    {x : Rendering α} {f : α → Rendering β} (hx : ∀ w, R w (exec x w).2)
    (hf : ∀ a w, R w (exec (f a) w).2) (w : World) : R w (exec (x >>= f) w).2 := by
  have h := hx w
  rw [exec_bind]
  rcases hr : exec x w with ⟨e | a, w₁⟩ <;> rw [hr] at h
  · exact h
  · exact hR h (hf a w₁)

/-- A success of two steps is one of the first, and then of the second. -/
theorem exec_bind_eq_ok_iff {x : Rendering α} {f : α → Rendering β} {w w' : World} {b : β} :
    exec (x >>= f) w = (.ok b, w') ↔
      ∃ a w₁, exec x w = (.ok a, w₁) ∧ exec (f a) w₁ = (.ok b, w') := by
  rw [exec_bind]
  rcases exec x w with ⟨e | a, w₁⟩
  · simp
  · simp only [Prod.mk.injEq, Except.ok.injEq]
    constructor
    · intro h
      exact ⟨a, w₁, ⟨rfl, rfl⟩, h⟩
    · rintro ⟨a, w₁, ⟨rfl, rfl⟩, h⟩
      exact h

/-- The outcome of an operation leaves the world as it is. -/
@[simp] theorem exec_ofExcept (r : Except Fault α) (w : World) : exec (ofExcept r) w = (r, w) := by
  cases r <;> rfl

/-- So does the outcome of an operation on values. -/
@[simp] theorem exec_ofCause (r : Except Cause α) (w : World) :
    exec (ofCause r) w = (r.mapError .basic, w) := by
  cases r <;> rfl

/-- It gives a result just if the operation does. -/
theorem exec_ofCause_eq_ok_iff {r : Except Cause α} {w w' : World} {a : α} :
    exec (ofCause r) w = (.ok a, w') ↔ r = .ok a ∧ w' = w := by
  rw [exec_ofCause]
  cases r <;> simp [Except.mapError, eq_comm]

/-- An event goes to the end of the list. -/
theorem exec_note (e : Event) (w : World) :
    exec (note e) w = (.ok (), { w with events := w.events.push e }) := rfl

/-- An action on the heap changes nothing else. -/
theorem exec_onHeap (x : Action α) (w : World) :
    exec (onHeap x) w = ((x.run.run w.heap).1, { w with heap := (x.run.run w.heap).2 }) := by
  simp only [onHeap, exec_bind, exec_get]
  rcases x.run.run w.heap with ⟨r, h⟩
  simp [exec_bind]

/-- Building takes identities from the next one on. -/
theorem exec_build (b : Draft.Build α) (w : World) :
    exec (build b) w =
      match b.run w.nextNode with
      | .ok (a, next) => (.ok a, { w with nextNode := next })
      | .error f => (.error f, w) := by
  simp only [build, exec_bind, exec_get, exec_ofExcept]
  rcases b.run w.nextNode with f | ⟨a, n⟩ <;> rfl

/-! ### Large depths -/

section Depths

variable {x y : Nat → Rendering α} {f : Nat → α → Rendering β} {w w' : World}
variable {o : Except Fault α × World} {o' : Except Fault β × World}

/-- What is done at large depths is told by what the computations are there. -/
theorem exec_depths_congr (hx : ∃ least, ∀ depth ≥ least, exec (x depth) w = o) (least : Nat)
    (hy : ∀ depth ≥ least, y depth = x depth) :
    ∃ least, ∀ depth ≥ least, exec (y depth) w = o := by
  obtain ⟨m, hx⟩ := hx
  refine ⟨max least m, fun d hd => ?_⟩
  rw [hy d (Nat.le_trans (Nat.le_max_left _ _) hd)]
  exact hx d (Nat.le_trans (Nat.le_max_right _ _) hd)

/-- One group deeper, depths are large as well. -/
theorem exec_depths_of_succ (hx : ∃ least, ∀ depth ≥ least, exec (x (depth + 1)) w = o) :
    ∃ least, ∀ depth ≥ least, exec (x depth) w = o := by
  obtain ⟨m, hx⟩ := hx
  refine ⟨m + 1, fun d hd => ?_⟩
  obtain ⟨d, rfl⟩ : ∃ e, d = e + 1 := ⟨d - 1, by omega⟩
  exact hx d (by omega)

/-- At large depths, computations in a row go on with the result of the first one. -/
theorem exec_depths_bind_ok {a : α}
    (hx : ∃ least, ∀ depth ≥ least, exec (x depth) w = (.ok a, w'))
    (hf : ∃ least, ∀ depth ≥ least, exec (f depth a) w' = o') :
    ∃ least, ∀ depth ≥ least, exec (x depth >>= f depth) w = o' := by
  obtain ⟨m, hx⟩ := hx
  obtain ⟨k, hf⟩ := hf
  refine ⟨max m k, fun d hd => ?_⟩
  rw [exec_bind_ok (hx d (Nat.le_trans (Nat.le_max_left _ _) hd))]
  exact hf d (Nat.le_trans (Nat.le_max_right _ _) hd)

/-- So they end with its failure. -/
theorem exec_depths_bind_error {e : Fault}
    (hx : ∃ least, ∀ depth ≥ least, exec (x depth) w = (.error e, w')) :
    ∃ least, ∀ depth ≥ least, exec (x depth >>= f depth) w = (.error e, w') := by
  obtain ⟨m, hx⟩ := hx
  exact ⟨m, fun d hd => exec_bind_error (hx d hd) _⟩

end Depths

/-! ### Outcomes side by side -/

/-- Both fail, for the same reason, or both give results, which are related. -/
inductive Matched (R : α → β → Prop) : Except Fault α → Except Fault β → Prop where
  | ok {a : α} {b : β} (h : R a b) : Matched R (.ok a) (.ok b)
  | error (f : Fault) : Matched R (.error f) (.error f)

namespace Matched

variable {R : α → β → Prop}

/-- One outcome beside itself. -/
theorem same (r : Except Fault α) : Matched Eq r r := by
  cases r with
  | ok a => exact .ok rfl
  | error f => exact .error f

/-- Outcomes with equal results are equal. -/
theorem eq {r r' : Except Fault α} (h : Matched Eq r r') : r = r' := by
  cases h with
  | ok h => rw [h]
  | error f => rfl

/-- Outcomes that become equal correspond so. -/
theorem of_map_eq {γ : Type} {f : α → γ} {g : β → γ} {r : Except Fault α} {r' : Except Fault β}
    (h : r'.map g = r.map f) : Matched (fun a b => g b = f a) r r' := by
  cases r with
  | error e =>
      cases r' with
      | error e' =>
          cases h
          exact .error e
      | ok b => cases h
  | ok a =>
      cases r' with
      | error e' => cases h
      | ok b => exact .ok (Except.ok.inj h)

/-- Outcomes that correspond go on to such. -/
theorem bind {γ δ : Type} {P : γ → δ → Prop} {r : Except Fault α} {r' : Except Fault β}
    {f : α → Except Fault γ} {g : β → Except Fault δ} (h : Matched R r r')
    (hf : ∀ a b, R a b → Matched P (f a) (g b)) : Matched P (r >>= f) (r' >>= g) := by
  cases h with
  | ok h => exact hf _ _ h
  | error e => exact .error e

end Matched

/-! ### What every result is like -/

/-- Every result that `x` gives satisfies `P`. -/
def Yields (P : α → Prop) (x : Rendering α) : Prop :=
  ∀ w a w', exec x w = (.ok a, w') → P a

namespace Yields

variable {P : β → Prop}

theorem pure {b : β} (h : P b) : Yields P (Pure.pure b) := by
  intro w a w' he
  simp only [exec_pure, Prod.mk.injEq, Except.ok.injEq] at he
  exact he.1 ▸ h

theorem throw (f : Fault) : Yields P (throw f) := by
  intro w a w' he
  simp at he

/-- Results of a narrower kind are of a wider one. -/
theorem mono {Q : β → Prop} {x : Rendering β} (hx : Yields Q x) (h : ∀ b, Q b → P b) :
    Yields P x :=
  fun w b w' he => h b (hx w b w' he)

/-- It depends on the last step only. -/
theorem bind {x : Rendering α} {f : α → Rendering β} (h : ∀ a, Yields P (f a)) :
    Yields P (x >>= f) := by
  intro w b w' he
  rw [exec_bind] at he
  split at he
  · exact h _ _ _ _ he
  · simp at he

/-- What holds of the first result may be used. -/
theorem bind_of {Q : α → Prop} {x : Rendering α} {f : α → Rendering β} (hx : Yields Q x)
    (h : ∀ a, Q a → Yields P (f a)) : Yields P (x >>= f) := by
  intro w b w' he
  rw [exec_bind] at he
  split at he
  · next a w₁ ha => exact h a (hx _ _ _ ha) _ _ _ he
  · simp at he

/-- Steps that go on alike from all results that the first one has, go on alike. -/
theorem bind_congr {Q : α → Prop} {x : Rendering α} (hx : Yields Q x) {f f' : α → Rendering β}
    (h : ∀ a, Q a → f a = f' a) : x >>= f = x >>= f' := by
  funext w
  change exec (x >>= f) w = exec (x >>= f') w
  rw [exec_bind, exec_bind]
  split
  · next a w' ha => rw [h a (hx w a w' ha)]
  · rfl

end Yields

end Rendering

/-! ### Loading -/

namespace Engine

/-- What a loader of sources answers, and what it leaves. -/
theorem exec_load {w : World} {number : Nat} {t : Sources}
    (hl : w.loaders.getD number .empty = .sources t) (path : String) (l : Option String)
    (wanted : Wanted) :
    Rendering.exec (load number path l wanted) w =
      match (t.load (Path.canonical path l)).run w.nextNode with
      | .ok ((s, u), j) =>
        (Loader.serve path wanted (Path.canonical path l) s,
          { w with
            nextNode := j
            loaders := w.loaders.setIfInBounds number (.sources u)
            events := w.events.push (.resolving path l (Path.canonical path l)) })
      | .error f =>
        (.error f,
          { w with events := w.events.push (.resolving path l (Path.canonical path l)) }) := by
  simp only [load, loadFrom, Rendering.exec_bind, Rendering.exec_get, hl, Rendering.exec_note,
    Rendering.exec_build]
  cases (t.load (Path.canonical path l)).run w.nextNode with
  | error f => rfl
  | ok r => simp only [Rendering.exec_modify, Rendering.exec_ofExcept]

end Engine
end Trellis
