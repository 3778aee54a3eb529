import Trellis.Expr.Evaluator
import Trellis.Proofs.Faults.Operations

/-!
# Proofs — Faults — Conversions

What a rendering does with values besides evaluating: it tells their truth, goes through them, and
puts them into markup and into attributes.  Nothing of it is located in an expression.  Tame values
stay tame on the way (`Action.Tames.start`, `Action.Tames.next`), and most failures are of classes of
which no complaints are made.  There are two exceptions: a collection without items
(`Action.FailsAs.start`), and a key that cannot be serialized (`Action.FailsAs.written`).
-/

namespace Trellis

open Value (TameItems TameEntries)

/-! ### Walks -/

/-- What the walk goes through is tame. -/
inductive Walk.Tame : Walk → Prop where
  | fixed {ps : List (Value × Value)} (h : TameEntries ps) : Tame (.fixed ps)
  | range (a c : Int) (n i : Nat) : Tame (.range a c n i)
  | list {l : Value} (i : Nat) (h : l.Tame) : Tame (.list l i)
  | dict {w : DictWalk} (h : w.dict.Tame) : Tame (.dict w)

/-- Numbers in front of tame items make tame entries. -/
theorem Walk.tame_numbered {xs : List Value} (h : TameItems xs) : TameEntries (numbered xs) := by
  intro e he
  obtain ⟨x, hx, rfl⟩ := List.mem_map.mp he
  exact ⟨.int _, h x.1 (List.fst_mem_of_mem_zipIdx hx)⟩

namespace Action.Tames

variable {v : Value} {w : Walk}

/-- A walk that begins at a tame value is tame. -/
theorem start (hv : v.Tame) : Tames Walk.Tame (Walk.start v) := by
  have dictionary (part : Option Part) {d : Value} (hd : d.Tame) :
      Tames (fun w => w.dict.Tame) (DictWalk.start d part) :=
    (slots hd).bind fun _ _ => pure hd
  unfold Walk.start
  split
  · exact pure (.fixed .nil)
  · exact (dictionary _ (Value.tame_view.mp hv)).bind fun _ hw => pure (.dict hw)
  · refine (view hv).bind fun u hu => ?_
    split
    · exact pure (.list 0 hv)
    · exact (dictionary _ hv).bind fun _ hw => pure (.dict hw)
    · exact pure (.range _ _ _ 0)
    · exact (items hu).bind fun xs hxs => pure (.fixed (Walk.tame_numbered hxs))

/-- An entry that a walk comes to is one of the dictionary's. -/
theorem nextEntry {d : DictWalk} (hd : d.dict.Tame) :
    Tames (fun o => ∀ r ∈ o, (r.1.1.Tame ∧ r.1.2.Tame) ∧ r.2.dict.Tame) d.next := by
  refine (slots hd).bind fun s hs => ite _ (fail _) ?_
  split
  · exact pure (by simp)
  · next e slot hnext =>
    obtain ⟨hk, hx⟩ := hs e (Slots.mem_live_of_next? hnext)
    refine ite _ (fail _) (pure fun r hr => ?_)
    obtain rfl := Option.some.inj hr
    refine ⟨?_, hd⟩
    unfold DictWalk.shownEntry
    split <;> simp [hk, hx]

/-- A step of a tame walk yields a tame pair. -/
theorem next (hw : w.Tame) :
    Tames (fun o => ∀ r ∈ o, (r.1.1.Tame ∧ r.1.2.Tame) ∧ r.2.Tame) w.next := by
  cases hw with
  | @fixed ps h =>
    cases ps with
    | nil => exact pure (by simp)
    | cons q ps =>
      obtain ⟨hq, hps⟩ := TameEntries.cons.mp h
      exact pure (by simpa using ⟨hq, .fixed hps⟩)
  | range a c n i =>
    exact ite _ (pure (by simpa using .range a c n (i + 1))) (pure (by simp))
  | @list l i h =>
    refine (view h).bind fun u hu => ?_
    split
    · split
      · next x hx =>
        have hx := Value.tame_list.mp hu x (List.mem_of_getElem? hx)
        exact pure (by simpa using ⟨hx, .list (i + 1) h⟩)
      · exact pure (by simp)
    · exact pure (by simp)
  | @dict d h =>
    refine (nextEntry h).bind fun o ho => ?_
    split
    · next q d' =>
      obtain ⟨hq, hd⟩ := ho _ rfl
      exact pure (by simpa using ⟨hq, .dict hd⟩)
    · exact pure (by simp)

end Action.Tames

/-! ### Failures -/

/-- All failures are those of operations that satisfy `F`. -/
def Action.FailsAs {α : Type} (F : Cause → Prop) (x : Action α) : Prop :=
  ∀ h f, (x.run.run h).1 = .error f → ∃ c, f = .basic c ∧ F c

/-- No complaint is made of the cause. -/
def Cause.IsHarmless (c : Cause) : Prop :=
  Expr.isComplained c.kind = false

namespace Action.FailsAs

variable {α β : Type} {F : Cause → Prop}

theorem pure (a : α) : FailsAs F (Pure.pure a : Action α) := by
  intro h f he
  cases he

theorem fail {c : Cause} (hc : F c) : FailsAs F (Action.fail c : Action α) := by
  intro h f he
  exact ⟨c, (Except.error.inj he).symm, hc⟩

theorem get : FailsAs F (getThe Heap : Action Heap) := by
  intro h f he
  cases he

/-- Actions in a row fail as they do one by one. -/
theorem bind {x : Action α} {k : α → Action β} (hx : FailsAs F x) (hk : ∀ a, FailsAs F (k a)) :
    FailsAs F (x >>= k) := by
  intro h f he
  have hf := hx h
  rw [run_bind] at he
  rcases hr : x.run.run h with ⟨e | a, h'⟩ <;> rw [hr] at he hf
  · obtain rfl := Except.error.inj he
    exact hf e rfl
  · exact hk a h' f he

/-- A choice between actions fails as they do. -/
theorem ite (c : Prop) [Decidable c] {x y : Action α} (hx : FailsAs F x) (hy : FailsAs F y) :
    FailsAs F (if c then x else y) := by
  split
  · exact hx
  · exact hy

theorem view (v : Value) : FailsAs F (Action.view v) :=
  get.bind fun _ => pure _

theorem slots (v : Value) : FailsAs F (Action.slots v) :=
  get.bind fun _ => pure _

/-- Asking for truth never fails. -/
theorem truth (v : Value) : FailsAs F (Action.truth v) := by
  refine get.bind fun h => ?_
  split
  · split <;> exact pure _
  · exact pure _

/-- Text is made of a value without a complaint; only too many digits are refused. -/
theorem embedded (v : Value) : FailsAs Cause.IsHarmless (Action.embedded v) := by
  have deep : FailsAs Cause.IsHarmless (Action.deep v) := get.bind fun _ => pure _
  have writable : FailsAs Cause.IsHarmless (Action.writable v) :=
    deep.bind fun _ => ite _ (fail (c := .digitsWritten) rfl) (pure _)
  exact writable.bind fun _ => pure _

/-! ### Going through values -/

/-- The failures of walks that are told of a collection without items, or of no harm. -/
def Loops (c : Cause) : Prop :=
  (∃ t, c = .notIterable t) ∨ c.IsHarmless

/-- Taking the items of a value fails for want of items, or harmlessly. -/
theorem items? (v : Value) : FailsAs Loops (Value.items? v) := by
  have rangeItems (a b c : Int) : FailsAs Loops (Value.rangeItems a b c) :=
    ite _ (fail (.inr rfl)) (ite _ (pure _) (fail (.inr rfl)))
  have entriesOf (d : Value) : FailsAs Loops (Value.entriesOf d) := by
    refine (view d).bind fun u => ?_
    split <;> exact pure _
  refine (view v).bind fun w => ?_
  split
  case h_5 => exact (rangeItems _ _ _).bind fun _ => pure _
  case h_7 => exact (entriesOf _).bind fun _ => pure _
  all_goals exact pure _

/-- The same, where items are demanded. -/
theorem items (v : Value) : FailsAs Loops (Value.items v) := by
  refine (items? v).bind fun o => ?_
  cases o with
  | some xs => exact pure _
  | none => exact fail (.inl ⟨_, rfl⟩)

/-- A walk starts unless the collection has no items. -/
theorem start (v : Value) : FailsAs Loops (Walk.start v) := by
  have dictionary (d : Value) (part : Option Part) : FailsAs Loops (DictWalk.start d part) :=
    (slots d).bind fun _ => pure _
  unfold Walk.start
  split
  · exact pure _
  · exact (dictionary _ _).bind fun _ => pure _
  · refine (view _).bind fun w => ?_
    split
    · exact pure _
    · exact (dictionary _ _).bind fun _ => pure _
    · exact pure _
    · exact (items _).bind fun _ => pure _

/-- A walk that goes on fails only since what it walks over has changed. -/
theorem next (w : Walk) : FailsAs Cause.IsHarmless w.next := by
  unfold Walk.next
  split
  · exact pure _
  · exact pure _
  · exact ite _ (pure _) (pure _)
  · refine (view _).bind fun w => ?_
    split
    · split <;> exact pure _
    · exact pure _
  · next d =>
    have step : FailsAs Cause.IsHarmless d.next := by
      refine (slots d.dict).bind fun s => ite _ (fail rfl) ?_
      split
      · exact pure _
      · exact ite _ (fail rfl) (pure _)
    refine step.bind fun o => ?_
    split <;> exact pure _

end Action.FailsAs

/-! ### Serializing -/

namespace Json

/-- The failures of a serialized value: a key that cannot be serialized, or one of no harm. -/
def Serials (c : Cause) : Prop :=
  (∃ t, c = .jsonKey t) ∨ c.IsHarmless

/-- All failures of the outcome satisfy `F`. -/
def Fails {α : Type} (r : Except Cause α) : Prop :=
  ∀ c, r = .error c → Serials c

variable {α β : Type}

theorem Fails.ok (a : α) : Fails (.ok a) := by
  intro c hc
  cases hc

theorem Fails.error {c : Cause} (hc : Serials c) : Fails (.error c : Except Cause α) := by
  intro d hd
  cases hd
  exact hc

/-- Writers in a row fail as they do one by one. -/
theorem Fails.bind {r : Except Cause α} {f : α → Except Cause β} (hr : Fails r)
    (hf : ∀ a, Fails (f a)) : Fails (r >>= f) := by
  cases r with
  | ok a => exact hf a
  | error c => exact .error (hr c rfl)

/-- A number is refused only for its many digits. -/
theorem fails_writeInt (n : Int) : Fails (writeInt n) := by
  unfold writeInt
  split
  · exact .error (.inr rfl)
  · exact .ok _

/-- What has no form is refused harmlessly. -/
theorem fails_writeOther (v : Value) : Fails (writeOther v) := by
  unfold writeOther
  split
  · exact .error (.inr rfl)
  · exact .ok _

/-- A key that is not written is named in the failure. -/
theorem fails_writeKey (k : Value) : Fails (writeKey k) := by
  cases k with
  | int n => exact (fails_writeInt n).bind fun _ => .ok _
  | text s => exact .ok _
  | float x => exact .ok _
  | nan m => exact .ok _
  | bool b => exact .ok _
  | none => exact .ok _
  | _ => exact .error (.inl ⟨_, rfl⟩)

mutual

/-- By induction on the value. -/
theorem fails_write : (v : Value) → Fails (write v)
  | .none | .bool _ | .float _ | .nan _ | .text _ => .ok _
  | .int n => fails_writeInt n
  | .list xs | .tuple xs => (fails_writeItems xs).bind fun _ => .ok _
  | .dict es => (fails_writeEntries es).bind fun _ => .ok _
  | .ref .list _ | .ref .dict _ | .cut _ => .error (.inr rfl)
  | .range .. | .object _ | .set .. | .view .. | .function _ | .generic .. | .descriptor ..
  | .method .. | .ref .counter _ | .ref .supply _ => fails_writeOther _
termination_by structural v => v

theorem fails_writeItems : (xs : List Value) → Fails (writeItems xs)
  | [] => .ok _
  | x :: xs => (fails_write x).bind fun _ => (fails_writeItems xs).bind fun _ => .ok _
termination_by structural xs => xs

theorem fails_writeEntries : (es : List (Value × Value)) → Fails (writeEntries es)
  | [] => .ok _
  | e :: es => (fails_writeEntry e).bind fun _ => (fails_writeEntries es).bind fun _ => .ok _
termination_by structural es => es

theorem fails_writeEntry : (e : Value × Value) → Fails (writeEntry e)
  | (k, v) => (fails_writeKey k).bind fun _ => (fails_write v).bind fun _ => .ok _
termination_by structural e => e

end

end Json

/-- A value is serialized unless one of its keys cannot be. -/
theorem Action.FailsAs.written (v : Value) :
    FailsAs Json.Serials (do Action.ofExcept (Json.write (← Action.serial v))) := by
  have serial : FailsAs Json.Serials (Action.serial v) := get.bind fun _ => pure _
  refine serial.bind fun w => ?_
  cases hw : Json.write w with
  | ok s => exact pure s
  | error c => exact fail (Json.fails_write w c hw)

end Trellis
