import Trellis.Tree.Draft
import Trellis.Proofs.Interpretation.Coupling
import Trellis.Proofs.Interpretation.Throughout

/-!
# Proofs — Registry — Keys

The keys of a dictionary are distinct (`Value.Distinct`).  Putting a key into a storage keeps them
so, and every action by which a dictionary is built of a value keeps them so in the whole heap
(`Action.KeepsDistinct`).  Hence the attributes of every node that is built of a draft have distinct
keys (`Draft.node_keyed`), given that those of the finished nodes in it have.
-/

namespace Trellis

/-! ### Entries -/

namespace Value

/-- No key occurs twice. -/
def Distinct (keys : List Value) : Prop :=
  keys.Pairwise fun k l => sameItem l k = false

theorem distinct_nil : Distinct [] :=
  List.Pairwise.nil

/-- Putting in an entry adds no key but its own. -/
theorem mem_insert_keys {key value k : Value} {es : List (Value × Value)}
    (h : k ∈ (insert key value es).map (·.1)) : k = key ∨ k ∈ es.map (·.1) := by
  induction es with
  | nil => exact .inl (by simpa [insert] using h)
  | cons e es ih =>
    rw [insert] at h
    split at h
    · exact .inr (by simpa using h)
    · rcases List.mem_cons.mp h with rfl | h
      · exact .inr (by simp)
      · exact (ih h).imp_right (List.mem_cons_of_mem _)

/-- A key that is put is new, or takes the place of the one that is the same. -/
theorem distinct_insert {es : List (Value × Value)} (h : Distinct (es.map (·.1)))
    (key value : Value) : Distinct ((insert key value es).map (·.1)) := by
  induction es with
  | nil => exact List.pairwise_singleton _ _
  | cons e es ih =>
    obtain ⟨he, hes⟩ := List.pairwise_cons.mp h
    rw [insert]
    by_cases hk : sameItem key e.1 = true
    · rw [if_pos hk]
      exact h
    · rw [if_neg hk]
      refine List.pairwise_cons.mpr ⟨fun k hm => ?_, ih hes⟩
      rcases mem_insert_keys hm with rfl | hm
      · simpa using hk
      · exact he k hm

end Value

open Value (Distinct distinct_insert)

namespace Slots

/-- The keys in a storage are distinct. -/
def Keyed (s : Slots) : Prop :=
  Distinct (s.live.map (·.1))

theorem keyed_empty : empty.Keyed :=
  Value.distinct_nil

/-- Putting in an entry keeps keys distinct. -/
theorem Keyed.put {s : Slots} (h : s.Keyed) (key value : Value) : (s.put key value).Keyed := by
  unfold Keyed
  rw [live_put]
  exact distinct_insert h key value

theorem Keyed.putAll {s : Slots} (h : s.Keyed) (es : List (Value × Value)) :
    (s.putAll es).Keyed := by
  unfold Slots.putAll
  induction es generalizing s with
  | nil => exact h
  | cons e es ih => exact ih (h.put e.1 e.2)

/-- A dictionary of entries has distinct keys. -/
theorem keyed_ofList (es : List (Value × Value)) : (ofList es).Keyed :=
  keyed_empty.putAll es

/-- So does taking over another dictionary. -/
theorem Keyed.absorb {s t : Slots} (hs : s.Keyed) (ht : t.Keyed) : (s.absorb t).Keyed := by
  have hreserve : (s.reserve t).Keyed := by
    unfold reserve Keyed
    split
    · rw [live_repack]
      exact hs
    · exact hs
  unfold Slots.absorb
  split
  · exact hs
  · split
    · exact ht
    · exact hreserve.putAll t.live

end Slots

/-! ### Heaps -/

/-- The keys of every dictionary in the heap are distinct. -/
def Heap.Keyed (h : Heap) : Prop :=
  ∀ (a : Nat) (s : Slots), h.cells[a]? = some (.dict s) → s.Keyed

namespace Heap.Keyed

variable {h : Heap}

theorem empty : Heap.empty.Keyed := by
  intro a s hs
  simp [Heap.empty] at hs

/-- Every dictionary of such a heap has distinct keys. -/
theorem slots (hh : h.Keyed) (v : Value) : (h.slots v).Keyed := by
  unfold Heap.slots
  split
  · split
    · next s hs => exact hh _ s hs
    · exact Slots.keyed_empty
  · exact Slots.keyed_ofList _
  · exact Slots.keyed_empty

theorem set (hh : h.Keyed) (a : Nat) {c : Cell} (hc : ∀ s, c = .dict s → s.Keyed) :
    (h.set a c).Keyed := by
  intro b s hs
  rw [Heap.set, Array.getElem?_setIfInBounds] at hs
  split at hs
  · split at hs
    · exact hc s (Option.some.inj hs)
    · cases hs
  · exact hh b s hs

/-- One more cell keeps it so, if its keys are distinct. -/
theorem push (hh : h.Keyed) {c : Cell} (hc : ∀ s, c = .dict s → s.Keyed) :
    Heap.Keyed { h with cells := h.cells.push c } := by
  intro b s hs
  rw [Array.getElem?_push] at hs
  split at hs
  · exact hc s (Option.some.inj hs)
  · exact hh b s hs

end Heap.Keyed

/-- The action leaves the keys of all dictionaries distinct. -/
def Action.KeepsDistinct {α : Type} (x : Action α) : Prop :=
  ∀ h : Heap, h.Keyed → (x.run.run h).2.Keyed

namespace Action.KeepsDistinct

variable {α β : Type}

/-- An action that leaves the heap as it is keeps it so. -/
theorem of_eq {x : Action α} (hx : ∀ h, (x.run.run h).2 = h) : x.KeepsDistinct := by
  intro h hh
  rw [hx]
  exact hh

theorem pure (a : α) : KeepsDistinct (Pure.pure a : Action α) :=
  of_eq fun _ => rfl

theorem fail (c : Cause) : KeepsDistinct (Action.fail c : Action α) :=
  of_eq fun _ => rfl

/-- Actions in a row keep it so if each does. -/
theorem bind {x : Action α} {f : α → Action β} (hx : x.KeepsDistinct)
    (hf : ∀ a, (f a).KeepsDistinct) : (x >>= f).KeepsDistinct := by
  intro h hh
  have h₁ := hx h hh
  rw [Action.run_bind]
  rcases hr : x.run.run h with ⟨e | a, h'⟩ <;> rw [hr] at h₁
  · exact h₁
  · exact hf a h' h₁

theorem ite (c : Prop) [Decidable c] {x y : Action α} (hx : x.KeepsDistinct)
    (hy : y.KeepsDistinct) : (if c then x else y).KeepsDistinct := by
  split
  · exact hx
  · exact hy

theorem view (v : Value) : KeepsDistinct (Action.view v) :=
  of_eq fun _ => rfl

theorem key (v : Value) : KeepsDistinct (Action.key v) := by
  unfold Action.key
  split
  · exact fail _
  · exact pure _

/-- So does a new cell with distinct keys. -/
theorem alloc (k : Kind) {c : Cell} (hc : ∀ s, c = .dict s → s.Keyed) :
    KeepsDistinct (Action.alloc k c) :=
  fun _ hh => hh.push hc

/-- So does a cell that is overwritten with one. -/
theorem assign (a : Nat) {c : Cell} (hc : ∀ s, c = .dict s → s.Keyed) :
    KeepsDistinct (Action.assign a c) :=
  fun _ hh => hh.set a hc

/-- What is done next is known of the storage that is read. -/
theorem slots_bind (v : Value) {f : Slots → Action β} (hf : ∀ s, s.Keyed → (f s).KeepsDistinct) :
    KeepsDistinct (Action.slots v >>= f) :=
  fun h hh => hf _ (hh.slots v) h hh

theorem entriesOf (v : Value) : KeepsDistinct (Value.entriesOf v) := by
  refine (view v).bind fun w => ?_
  split <;> exact pure _

theorem items? (v : Value) : KeepsDistinct (Value.items? v) := by
  have range (a b c : Int) : KeepsDistinct (Value.rangeItems a b c) :=
    ite _ (fail _) (ite _ (pure _) (fail _))
  refine (view v).bind fun w => ?_
  split
  case h_5 => exact (range _ _ _).bind fun _ => pure _
  case h_7 => exact (entriesOf _).bind fun _ => pure _
  all_goals exact pure _

theorem items (v : Value) : KeepsDistinct (Value.items v) := by
  refine (items? v).bind fun xs => ?_
  cases xs with
  | some xs => exact pure _
  | none => exact fail _

theorem nextSupply (a : Nat) : KeepsDistinct (Value.nextSupply a) := by
  refine bind (of_eq fun _ => rfl : KeepsDistinct (getThe Heap)) fun h => ?_
  split
  · exact (assign _ fun s hs => by cases hs).bind fun _ => pure _
  · exact pure _

theorem toldKeys (object held : Value) : KeepsDistinct (Value.toldKeys object held) := by
  have call : KeepsDistinct (Value.callHeld held) := by
    unfold Value.callHeld
    split
    · exact alloc _ fun s hs => by cases hs
    · exact fail _
    · exact nextSupply _
    · exact fail _
  refine call.bind fun told => (items? told).bind fun ks => ?_
  cases ks with
  | some ks => exact pure _
  | none => exact fail _

/-! ### Building a dictionary -/

/-- So does a change of a dictionary that keeps its keys distinct. -/
theorem change (a : Nat) {f : Slots → Slots} (hf : ∀ s, s.Keyed → (f s).Keyed) :
    KeepsDistinct (Value.DictMethod.change a f) := by
  refine slots_bind _ fun s hs => assign a fun t ht => ?_
  obtain rfl := Cell.dict.inj ht
  exact hf s hs

theorem writePairs (a i : Nat) (vs : List Value) :
    KeepsDistinct (Value.DictMethod.writePairs a i vs) := by
  have pairOf (i : Nat) (v : Value) : KeepsDistinct (Value.DictMethod.pairOf i v) := by
    refine (items? v).bind fun xs => ?_
    split
    · exact fail _
    · exact (key _).bind fun _ => pure _
    · exact fail _
  induction vs generalizing i with
  | nil => exact pure _
  | cons v vs ih =>
    refine (pairOf i v).bind fun e => ?_
    exact (change a fun s hs => hs.put _ _).bind fun _ => ih _

/-- So does an update. -/
theorem updateFrom (a : Nat) (v : Value) : KeepsDistinct (Value.DictMethod.updateFrom a v) := by
  refine (view v).bind fun w => ?_
  split
  · split
    · refine (toldKeys v _).bind fun ks => ?_
      exact ite _ (fail _) (pure _)
    · exact fail _
  · refine slots_bind v fun s hs => ite _ (pure _) ?_
    exact change a fun t ht => ht.absorb hs
  · exact ite _ (pure _) (fail _)
  · exact fail _
  · exact (items _).bind fun xs => writePairs a 0 xs

end Action.KeepsDistinct

/-! ### Nodes -/

/-- The keys of the node's attributes are distinct. -/
def Node.Keyed (n : Node) : Prop :=
  Distinct (n.attributes.map (·.1))

namespace Draft

/-- The entries that are read of a heap in which keys are distinct. -/
theorem distinct_entriesOf {h : Heap} (hh : h.Keyed) (k : Kind) (a : Nat)
    {es : List (Value × Value)} (he : ((Value.entriesOf (.ref k a)).run.run h).1 = .ok es) :
    Distinct (es.map (·.1)) := by
  have hview : (Action.view (.ref k a)).run.run h =
      (.ok ((h.content a).getD (.ref k a)), h) := rfl
  rw [Value.entriesOf, Action.run_bind, hview, Heap.content] at he
  cases hc : h.cells[a]? with
  | none =>
    rw [hc] at he
    cases he
    exact Value.distinct_nil
  | some c =>
    rw [hc] at he
    cases c with
    | dict s =>
      cases he
      exact hh a s hc
    | _ =>
      cases he
      exact Value.distinct_nil

/-- The attributes of a node are read off a dictionary that was built of a value. -/
theorem attributes_distinct {v : Value} {es : List (Value × Value)} (h : attributes v = .ok es) :
    Distinct (es.map (·.1)) := by
  -- the dictionary is the first cell, and the value is written to it
  let first : Heap := { Heap.empty with cells := #[.dict (Slots.ofList [])] }
  have hfirst : first.Keyed := by
    refine Heap.Keyed.push Heap.Keyed.empty fun s hs => ?_
    obtain rfl := Cell.dict.inj hs
    exact Slots.keyed_ofList []
  have hrun : attributes v = ((do
      Value.DictMethod.updateFrom 0 (orElse v (.dict []))
      Value.entriesOf (.ref .dict 0)).run.run first).1 := by
    unfold attributes Action.alone Value.DictMethod.construct
    simp only [bind_assoc, pure_bind]
    rfl
  have hkeyed := Action.KeepsDistinct.updateFrom 0 (orElse v (.dict [])) first hfirst
  rw [hrun, Action.run_bind] at h
  rcases hr : (Value.DictMethod.updateFrom 0 (orElse v (.dict []))).run.run first with
    ⟨e | _, h'⟩ <;> rw [hr] at h hkeyed
  · cases h
  · exact distinct_entriesOf hkeyed .dict 0 h

/-- Every node that is assembled has distinct keys. -/
theorem assembles_keyed : Assembles Node.Keyed := by
  intro fields ns i n j h
  obtain ⟨as, has, rfl, -⟩ := assemble_eq_ok_iff.mp h
  exact attributes_distinct has

/-- **The nodes of a draft have distinct keys**, if the finished ones in it have. -/
theorem node_keyed {d : Draft} (h : d.Within {n | n.Throughout Node.Keyed}) :
    d.Throughout Node.Keyed :=
  node_throughout assembles_keyed d h

end Draft
end Trellis
