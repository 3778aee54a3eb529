import Trellis.Proofs.Interpretation.Coupling
import Trellis.Value.Call

/-!
# Proofs — Faults — Tame

Values that raise no complaints of their own.  All operations fail as operations on values do, with
one exception: a function that raises what its arguments describe.  A value is tame if it has no
such function in it, and a heap if its containers have none.

`Action.Tames` says of an action that it keeps to tame values: from a tame heap it ends with a tame
heap, and fails as an operation does or has a result as it should be.  It is closed under sequences,
and the steps on the heap have it.
-/

namespace Trellis

namespace Value

/-- The value has no function in it that raises complaints. -/
inductive Tame : Value → Prop where
  | none : Tame .none
  | bool (b : Bool) : Tame (.bool b)
  | int (n : Int) : Tame (.int n)
  | float (x : Float) : Tame (.float x)
  | nan (m : Nat) : Tame (.nan m)
  | text (s : String) : Tame (.text s)
  | list {xs : List Value} (h : ∀ x ∈ xs, Tame x) : Tame (.list xs)
  | tuple {xs : List Value} (h : ∀ x ∈ xs, Tame x) : Tame (.tuple xs)
  | dict {es : List (Value × Value)} (keys : ∀ e ∈ es, Tame e.1) (values : ∀ e ∈ es, Tame e.2) :
      Tame (.dict es)
  | range (a b c : Int) : Tame (.range a b c)
  | object {fs : List (String × Value)} (h : ∀ f ∈ fs, Tame f.2) : Tame (.object fs)
  | set {xs : List Value} (n : Nat) (h : ∀ x ∈ xs, Tame x) : Tame (.set xs n)
  | view (p : Part) {d : Value} (m : Nat) (h : Tame d) : Tame (.view p d m)
  | function {f : Function} (h : f ≠ .raise) : Tame (.function f)
  | generic {f : Function} (xs : List Value) (u : Bool) (h : f ≠ .raise) : Tame (.generic f xs u)
  | descriptor (f : Function) (n : String) : Tame (.descriptor f n)
  | method (r : Value) (n : String) (o : Origin) : Tame (.method r n o)
  | ref (k : Kind) (a : Nat) : Tame (.ref k a)
  | cut (s : String) : Tame (.cut s)

attribute [simp] Tame.none Tame.bool Tame.int Tame.float Tame.nan Tame.text Tame.range
  Tame.descriptor Tame.method Tame.ref Tame.cut

/-- All items are tame. -/
def TameItems (xs : List Value) : Prop :=
  ∀ x ∈ xs, x.Tame

/-- All keys are tame, and all values. -/
def TameEntries (es : List (Value × Value)) : Prop :=
  ∀ e ∈ es, e.1.Tame ∧ e.2.Tame

variable {v w d : Value} {xs ys : List Value} {es fs : List (Value × Value)}

/-! ### Parts -/

@[simp] theorem tame_list : Tame (.list xs) ↔ TameItems xs :=
  ⟨fun h => by cases h; assumption, .list⟩

@[simp] theorem tame_tuple : Tame (.tuple xs) ↔ TameItems xs :=
  ⟨fun h => by cases h; assumption, .tuple⟩

@[simp] theorem tame_set {n : Nat} : Tame (.set xs n) ↔ TameItems xs :=
  ⟨fun h => by cases h; assumption, .set n⟩

@[simp] theorem tame_dict : Tame (.dict es) ↔ TameEntries es := by
  constructor
  · rintro (_ | _ | _ | _ | _ | _ | _ | _ | ⟨keys, values⟩)
    exact fun e he => ⟨keys e he, values e he⟩
  · exact fun h => .dict (fun e he => (h e he).1) fun e he => (h e he).2

@[simp] theorem tame_object {fs : List (String × Value)} :
    Tame (.object fs) ↔ ∀ f ∈ fs, f.2.Tame :=
  ⟨fun h => by cases h; assumption, .object⟩

/-- A view is tame if the value that it is a view of is. -/
@[simp] theorem tame_view {p : Part} {m : Nat} : Tame (.view p d m) ↔ d.Tame :=
  ⟨fun h => by cases h; assumption, .view p m⟩

/-- All functions are tame but the one that raises what it is told. -/
@[simp] theorem tame_function {f : Function} : Tame (.function f) ↔ f ≠ .raise :=
  ⟨fun h => by cases h; assumption, .function⟩

@[simp] theorem tame_generic {f : Function} {u : Bool} : Tame (.generic f xs u) ↔ f ≠ .raise :=
  ⟨fun h => by cases h; assumption, .generic xs u⟩

namespace TameItems

@[simp] theorem nil : TameItems [] :=
  fun _ h => nomatch h

@[simp] theorem cons : TameItems (v :: xs) ↔ v.Tame ∧ TameItems xs :=
  List.forall_mem_cons

/-- Items put together are tame if both parts are. -/
@[simp] theorem append : TameItems (xs ++ ys) ↔ TameItems xs ∧ TameItems ys :=
  List.forall_mem_append

theorem subset (h : TameItems ys) (hxs : ∀ x ∈ xs, x ∈ ys) : TameItems xs :=
  fun x hx => h x (hxs x hx)

/-- An item at a place is tame, also where there is none. -/
theorem getD (h : TameItems xs) (n : Nat) : (xs.getD n .none).Tame := by
  rw [List.getD_eq_getElem?_getD]
  cases hx : xs[n]? with
  | none => exact .none
  | some x => exact h x (List.mem_of_getElem? hx)

theorem map {α : Type} {f : α → Value} {as : List α} (h : ∀ a, (f a).Tame) :
    TameItems (as.map f) := by
  intro x hx
  obtain ⟨a, -, rfl⟩ := List.mem_map.mp hx
  exact h a

end TameItems

namespace TameEntries

@[simp] theorem nil : TameEntries [] :=
  fun _ h => nomatch h

@[simp] theorem cons {e : Value × Value} :
    TameEntries (e :: es) ↔ (e.1.Tame ∧ e.2.Tame) ∧ TameEntries es :=
  List.forall_mem_cons

theorem keys (h : TameEntries es) : TameItems (es.map (·.1)) := by
  intro x hx
  obtain ⟨e, he, rfl⟩ := List.mem_map.mp hx
  exact (h e he).1

/-- The items of a view are tame. -/
theorem viewItems (h : TameEntries es) (p : Part) : TameItems (viewItems p es) := by
  intro x hx
  cases p <;> obtain ⟨e, he, rfl⟩ := List.mem_map.mp hx
  · exact (h e he).1
  · exact (h e he).2
  · simpa using h e he

/-- What is found under a key is tame. -/
theorem lookup? (h : TameEntries es) (k : Value) (hv : lookup? k es = some v) : v.Tame := by
  obtain ⟨e, he, rfl⟩ := Option.map_eq_some_iff.mp hv
  exact (h e (List.mem_of_find?_eq_some he)).2

/-- Putting a tame value under a tame key keeps entries tame. -/
theorem insert (h : TameEntries es) (hv : v.Tame) (hw : w.Tame) :
    TameEntries (insert v w es) := by
  induction es with
  | nil => simp [Value.insert, hv, hw]
  | cons e es ih =>
    obtain ⟨he, hes⟩ := cons.mp h
    unfold Value.insert
    split
    · exact cons.mpr ⟨⟨he.1, hw⟩, hes⟩
    · exact cons.mpr ⟨he, ih hes⟩

/-- So does taking an entry away. -/
theorem erase (h : TameEntries es) (k : Value) : TameEntries (erase k es) := by
  induction es with
  | nil => exact h
  | cons e es ih =>
    obtain ⟨he, hes⟩ := cons.mp h
    unfold Value.erase
    split
    · exact hes
    · exact cons.mpr ⟨he, ih hes⟩

/-- So does putting in entries one by one. -/
theorem insertAll (h : TameEntries es) (hfs : TameEntries fs) :
    TameEntries (fs.foldl (fun es e => Value.insert e.1 e.2 es) es) := by
  induction fs generalizing es with
  | nil => exact h
  | cons f fs ih =>
    obtain ⟨hf, hfs⟩ := cons.mp hfs
    exact ih (h.insert hf.1 hf.2) hfs

end TameEntries

end Value

open Value (TameItems TameEntries)

namespace Slots

/-- The entries in the storage are tame. -/
def Tame (s : Slots) : Prop :=
  TameEntries s.live

variable {s t : Slots} {k v : Value}

theorem tame_empty : empty.Tame :=
  TameEntries.nil

/-- Putting in an entry keeps a dictionary tame. -/
theorem Tame.put (h : s.Tame) (hk : k.Tame) (hv : v.Tame) : (s.put k v).Tame := by
  unfold Tame
  rw [live_put]
  exact TameEntries.insert h hk hv

/-- So does taking one away. -/
theorem Tame.erase (h : s.Tame) (k : Value) : (s.erase k).Tame := by
  unfold Tame
  rw [live_erase]
  exact TameEntries.erase h k

theorem Tame.putAll (h : s.Tame) {es : List (Value × Value)} (hes : TameEntries es) :
    (s.putAll es).Tame := by
  unfold Tame
  rw [live_putAll]
  exact TameEntries.insertAll h hes

/-- A dictionary of tame entries is tame. -/
theorem tame_ofList {es : List (Value × Value)} (hes : TameEntries es) : (ofList es).Tame :=
  tame_empty.putAll hes

/-- A dictionary that takes over another stays tame. -/
theorem Tame.absorb (hs : s.Tame) (ht : t.Tame) : (s.absorb t).Tame := by
  have hreserve : (s.reserve t).Tame := by
    unfold reserve Tame
    split
    · rw [live_repack]
      exact hs
    · exact hs
  unfold Slots.absorb
  split
  · exact hs
  · split
    · exact ht
    · exact hreserve.putAll ht

/-- An entry that is found is one of the storage. -/
theorem mem_live_of_next? {n m : Nat} {e : Value × Value} (h : s.next? n = some (e, m)) :
    e ∈ s.live := by
  obtain ⟨⟨o, i⟩, ho, hmap⟩ := List.exists_of_findSome?_eq_some h
  obtain ⟨e', he', heq⟩ := Option.map_eq_some_iff.mp hmap
  obtain ⟨rfl, -⟩ := Prod.mk.inj heq
  have hslot : some e' ∈ s.slots := he' ▸ List.fst_mem_of_mem_zipIdx (List.mem_of_mem_drop ho)
  exact List.mem_filterMap.mpr ⟨some e', hslot, rfl⟩

end Slots

/-! ### Heaps -/

/-- What the address holds is tame. -/
def Cell.Tame : Cell → Prop
  | .list xs | .supply xs => TameItems xs
  | .dict s => s.Tame
  | .counter _ _ => True

/-- What the heap holds is tame. -/
def Heap.Tame (h : Heap) : Prop :=
  ∀ (a : Nat) (c : Cell), h.cells[a]? = some c → c.Tame

namespace Heap.Tame

variable {h : Heap} {v : Value} {c : Cell}

/-- Nothing untame is in an empty heap. -/
theorem empty : Heap.empty.Tame := by
  intro a c hc
  simp [Heap.empty] at hc

/-- What stands at an address is tame. -/
theorem content (hh : h.Tame) {a : Nat} (hv : h.content a = some v) : v.Tame := by
  unfold Heap.content at hv
  split at hv
  · next xs hc =>
    obtain rfl := Option.some.inj hv
    exact .list (hh a _ hc)
  · next s hc =>
    obtain rfl := Option.some.inj hv
    exact Value.tame_dict.mpr (hh a _ hc)
  · cases hv

theorem view (hh : h.Tame) (hv : v.Tame) : (h.view v).Tame := by
  cases v with
  | ref k a =>
    cases hc : h.content a with
    | none =>
      rw [Heap.view, hc]
      exact hv
    | some w =>
      rw [Heap.view, hc]
      exact hh.content hc
  | _ => exact hv

theorem slots (hh : h.Tame) (hv : v.Tame) : (h.slots v).Tame := by
  unfold Heap.slots
  split
  · split
    · next s hc => exact hh _ _ hc
    · exact Slots.tame_empty
  · exact Slots.tame_ofList (Value.tame_dict.mp hv)
  · exact Slots.tame_empty

/-- A heap with a tame cell in the place of another is tame. -/
theorem set (hh : h.Tame) (a : Nat) (hc : c.Tame) : (h.set a c).Tame := by
  intro b d hd
  rw [Heap.set, Array.getElem?_setIfInBounds] at hd
  split at hd
  · split at hd
    · exact Option.some.inj hd ▸ hc
    · cases hd
  · exact hh b d hd

/-- A heap with one more tame cell is tame. -/
theorem push (hh : h.Tame) (hc : c.Tame) : Heap.Tame { h with cells := h.cells.push c } := by
  intro b d hd
  rw [Array.getElem?_push] at hd
  split at hd
  · exact Option.some.inj hd ▸ hc
  · exact hh b d hd

end Heap.Tame

/-! ### Actions -/

/-- The fault of an operation on values, or of a name that has none. -/
def Fault.IsOrdinary : Fault → Prop
  | .basic _ | .template (.unbound _) _ => True
  | _ => False

namespace Action

variable {α β : Type}

/-- A tame heap, and an ordinary fault or a result that satisfies `P`. -/
inductive Tamed (P : α → Prop) : Except Fault α × Heap → Prop where
  | ok {a : α} {h : Heap} (ha : P a) (hh : h.Tame) : Tamed P (.ok a, h)
  | error {f : Fault} {h : Heap} (hf : f.IsOrdinary) (hh : h.Tame) : Tamed P (.error f, h)

/-- From a tame heap, the action ends with a tame heap, and with an ordinary fault or a result that
satisfies `P`. -/
def Tames (P : α → Prop) (x : Action α) : Prop :=
  ∀ h : Heap, h.Tame → Tamed P (x.run.run h)

namespace Tames

variable {P : α → Prop} {Q : β → Prop} {v w : Value} {xs : List Value}

theorem pure {a : α} (ha : P a) : Tames P (Pure.pure a) :=
  fun _ hh => .ok ha hh

/-- A failure of an operation is an ordinary fault. -/
theorem fail (c : Cause) : Tames P (Action.fail c) :=
  fun _ hh => .error trivial hh

/-- Tame actions in a row are tame. -/
theorem bind {x : Action α} {f : α → Action β} (hx : Tames P x) (hf : ∀ a, P a → Tames Q (f a)) :
    Tames Q (x >>= f) := by
  intro h hh
  have hr := hx h hh
  rw [run_bind]
  generalize x.run.run h = r at hr ⊢
  cases hr with
  | ok ha hh => exact hf _ ha _ hh
  | error hf hh => exact .error hf hh

/-- Nothing is done after a failure. -/
theorem fail_bind (c : Cause) (f : α → Action β) : Tames Q (Action.fail c >>= f) :=
  bind (P := fun _ => False) (fail c) fun _ h => h.elim

/-- A tame action is tame for whatever follows of its results. -/
theorem mono {R : α → Prop} {x : Action α} (hx : Tames P x) (h : ∀ a, P a → R a) : Tames R x := by
  intro g hg
  have hr := hx g hg
  generalize x.run.run g = r at hr ⊢
  cases hr with
  | ok ha hh => exact .ok (h _ ha) hh
  | error hf hh => exact .error hf hh

/-- A choice between tame actions is tame. -/
theorem ite (c : Prop) [Decidable c] {x y : Action α} (hx : Tames P x) (hy : Tames P y) :
    Tames P (if c then x else y) := by
  split
  · exact hx
  · exact hy

theorem ofExcept (r : Except Cause α) (h : ∀ a, r = .ok a → P a) : Tames P (Action.ofExcept r) := by
  cases r with
  | ok a => exact pure (h a rfl)
  | error c => exact fail c

theorem get : Tames Heap.Tame (get : Action Heap) :=
  fun _ hh => .ok hh hh

/-! ### Steps on the heap -/

theorem view (hv : v.Tame) : Tames Value.Tame (Action.view v) :=
  get.bind fun _ hh => pure (hh.view hv)

theorem slots (hv : v.Tame) : Tames Slots.Tame (Action.slots v) :=
  get.bind fun _ hh => pure (hh.slots hv)

theorem deep (v : Value) : Tames (fun _ => True) (Action.deep v) :=
  get.bind fun _ _ => pure trivial

theorem serial (v : Value) : Tames (fun _ => True) (Action.serial v) :=
  get.bind fun _ _ => pure trivial

/-- Storing a tame cell gives a tame value. -/
theorem alloc (k : Kind) {c : Cell} (hc : c.Tame) : Tames Value.Tame (Action.alloc k c) :=
  fun _ hh => .ok (.ref _ _) (hh.push hc)

/-- A new list of tame items is tame. -/
theorem newList (hxs : TameItems xs) : Tames Value.Tame (Action.newList xs) :=
  alloc .list hxs

/-- A new dictionary of tame entries is tame. -/
theorem newDict {es : List (Value × Value)} (hes : TameEntries es) :
    Tames Value.Tame (Action.newDict es) :=
  alloc .dict (Slots.tame_ofList hes)

theorem freshMark : Tames (fun _ => True) Action.freshMark :=
  fun _ hh => .ok trivial hh

theorem float (x : Float) : Tames Value.Tame (Action.float x) :=
  ite _ (freshMark.bind fun m _ => pure (.nan m)) (pure (.float x))

/-- Overwriting a cell with a tame one keeps the heap tame. -/
theorem assign (a : Nat) {c : Cell} (hc : c.Tame) : Tames (fun _ => True) (Action.assign a c) :=
  fun _ hh => .ok trivial (hh.set a hc)

theorem writable (v : Value) : Tames (fun _ => True) (Action.writable v) :=
  (deep v).bind fun _ _ => ite _ (fail _) (pure trivial)

/-- Words for a value are a text. -/
theorem shown (v : Value) : Tames (fun _ => True) (Action.shown v) :=
  (writable v).bind fun _ _ => pure trivial

theorem plain (v : Value) : Tames (fun _ => True) (Action.plain v) :=
  (writable v).bind fun _ _ => pure trivial

/-- What is put into markup is a text. -/
theorem embedded (v : Value) : Tames (fun _ => True) (Action.embedded v) :=
  (writable v).bind fun _ _ => pure trivial

/-- A serialized value is a text, or a key or a value is refused. -/
theorem written (v : Value) :
    Tames (fun _ => True) (do Action.ofExcept (Json.write (← Action.serial v))) :=
  (serial v).bind fun _ _ => ofExcept _ fun _ _ => trivial

/-- Asking for truth leaves the heap as it is. -/
theorem truth (v : Value) : Tames (fun _ => True) (Action.truth v) := by
  refine get.bind fun h _ => ?_
  split
  · split <;> exact pure trivial
  · exact pure trivial

/-- A key is the value itself, in the form in which it is compared. -/
theorem key (hv : v.Tame) : Tames Value.Tame (Action.key v) := by
  unfold Action.key
  split
  · exact fail _
  · exact pure hv

end Tames

end Action
end Trellis
