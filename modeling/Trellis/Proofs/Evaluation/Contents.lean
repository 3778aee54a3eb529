import Trellis.Value.Heap
import Trellis.Proofs.Evaluation.Alike

/-!
# Proofs — Evaluation — Contents

Data are their own content, whatever there is on the heap (`Heap.deep_of_isData`).  No references
are to be filled in, and nothing is cut off: a tuple that stands inside another one is not alike to
it, as it consists of fewer values (`Value.tally`).
-/

namespace Trellis

namespace Value

open List (Forall₂)

/-! ### How many values a value consists of -/

mutual

/-- The number of the values that a value consists of. -/
def tally : Value → Nat
  | .list xs => tallyItems xs + 1
  | .tuple xs => tallyItems xs + 1
  | .dict es => tallyEntries es + 1
  | _ => 1
termination_by structural v => v

/-- The number of the values that items consist of. -/
def tallyItems : List Value → Nat
  | [] => 0
  | x :: xs => tally x + tallyItems xs
termination_by structural xs => xs

/-- The number of the values that entries consist of. -/
def tallyEntries : List (Value × Value) → Nat
  | [] => 0
  | e :: es => tallyEntry e + tallyEntries es
termination_by structural es => es

/-- The number of the values that an entry consists of. -/
def tallyEntry : Value × Value → Nat
  | (k, v) => tally k + tally v
termination_by structural e => e

end

/-- The tally of items is the sum of theirs. -/
theorem tallyItems_eq_sum (xs : List Value) : tallyItems xs = (xs.map tally).sum := by
  induction xs with
  | nil => rfl
  | cons x xs ih => rw [tallyItems, ih, List.map_cons, List.sum_cons]

/-- The tally of entries is the sum of those of their parts. -/
theorem tallyEntries_eq_sum (es : List (Value × Value)) :
    tallyEntries es = (es.map fun e => e.1.tally + e.2.tally).sum := by
  induction es with
  | nil => rfl
  | cons e es ih => rw [tallyEntries, ih, List.map_cons, List.sum_cons, tallyEntry]

/-- An item has no larger tally than all of them. -/
theorem tally_le_items {x : Value} {xs : List Value} (hx : x ∈ xs) : x.tally ≤ tallyItems xs := by
  rw [tallyItems_eq_sum]
  exact List.le_sum_of_mem (List.mem_map_of_mem hx)

/-- Nor has an entry. -/
theorem tally_le_entries {e : Value × Value} {es : List (Value × Value)} (he : e ∈ es) :
    e.1.tally + e.2.tally ≤ tallyEntries es := by
  rw [tallyEntries_eq_sum]
  exact List.le_sum_of_mem (List.mem_map.mpr ⟨e, he, rfl⟩)

/-- A number counts as one, and so does a truth value. -/
theorem tally_of_asInt? {v : Value} {n : Int} (h : v.asInt? = some n) : v.tally = 1 := by
  cases v with
  | bool b => rfl
  | int m => rfl
  | _ => cases h

/-- Lists that agree item by item under two functions have equal images. -/
theorem map_eq_of_forall₂ {α β γ : Type} {f : α → γ} {g : β → γ} {xs : List α} {ys : List β}
    (h : Forall₂ (fun x y => f x = g y) xs ys) : xs.map f = ys.map g := by
  induction h with
  | nil => rfl
  | cons hxy _ ih => rw [List.map_cons, List.map_cons, hxy, ih]

/-- Items with equal tallies have equal tallies together. -/
theorem tallyItems_eq_of_forall₂ {xs ys : List Value}
    (h : Forall₂ (fun x y => x.tally = y.tally) xs ys) : tallyItems xs = tallyItems ys := by
  rw [tallyItems_eq_sum, tallyItems_eq_sum, map_eq_of_forall₂ h]

/-- Alike values consist of as many values. -/
theorem Alike.tally_eq {v w : Value} (h : Alike v w) : v.tally = w.tally := by
  induction h with
  | none => rfl
  | number hv hw => rw [tally_of_asInt? hv, tally_of_asInt? hw]
  | text s => rfl
  | list hlength _ ih =>
    rw [tally, tally, tallyItems_eq_of_forall₂ (forall₂_iff_zip.mpr ⟨hlength, ih⟩)]
  | tuple hlength _ ih =>
    rw [tally, tally, tallyItems_eq_of_forall₂ (forall₂_iff_zip.mpr ⟨hlength, ih⟩)]
  | @dict es fs gs horder hlength _ _ ihk ihv =>
    have hsame : es.map (fun e => e.1.tally + e.2.tally) =
        gs.map fun e => e.1.tally + e.2.tally := by
      refine map_eq_of_forall₂ (forall₂_iff_zip.mpr ⟨hlength, fun p hp => ?_⟩)
      rw [ihk p hp, ihv p hp]
    rw [tally, tally, tallyEntries_eq_sum, tallyEntries_eq_sum, hsame,
      (horder.map fun e => e.1.tally + e.2.tally).sum_nat]

/-! ### Nothing to fill in, and nothing to cut off -/

/-- Items are expanded one by one. -/
theorem expandItems_eq_map (x : Expansion) (outer xs : List Value) :
    expandItems x outer xs = xs.map (expand x outer) := by
  induction xs with
  | nil => rfl
  | cons v vs ih => rw [expandItems, ih, List.map_cons]

/-- So are entries. -/
theorem expandEntries_eq_map (x : Expansion) (outer : List Value) (es : List (Value × Value)) :
    expandEntries x outer es = es.map fun e => (expand x outer e.1, expand x outer e.2) := by
  induction es with
  | nil => rfl
  | cons e es ih => rw [expandEntries, ih, List.map_cons, expandEntry]

/-- The values around a value are data, and larger. -/
def Fits (v : Value) (outer : List Value) : Prop :=
  ∀ o ∈ outer, o.IsData ∧ v.tally < o.tally

variable {u v : Value} {outer : List Value}

/-- What is smaller fits where a value does. -/
theorem Fits.smaller (h : v.Fits outer) (hu : u.tally < v.tally) : u.Fits outer :=
  fun o ho => ⟨(h o ho).1, hu.trans (h o ho).2⟩

/-- It fits inside of the value, too. -/
theorem Fits.within (h : v.Fits outer) (hv : v.IsData) (hu : u.tally < v.tally) :
    u.Fits (v :: outer) :=
  List.forall_mem_cons.mpr ⟨⟨hv, hu⟩, h.smaller hu⟩

theorem map_eq_self {α : Type} {f : α → α} {xs : List α} (h : ∀ x ∈ xs, f x = x) :
    xs.map f = xs :=
  (List.map_congr_left h).trans (List.map_id' xs)

/-- A tuple is not cut off where it fits. -/
theorem cutInside_tuple {xs : List Value} (hxs : (tuple xs).IsData)
    (h : (tuple xs).Fits outer) : cutInside outer (.tuple xs) = Option.none := by
  have hnone : outer.any (sameObject (.tuple xs)) = false := by
    rw [List.any_eq_false]
    intro o ho hsame
    obtain ⟨hdata, hlt⟩ := h o ho
    cases o with
    | tuple ys =>
      have halike := (sameItem_iff_alike hxs hdata).mp hsame
      exact absurd halike.tally_eq (Nat.ne_of_lt hlt)
    | _ => cases hsame
  rw [cutInside, hnone]
  rfl

/-- Data stay as they are where they fit. -/
theorem expand_of_isData (hv : v.IsData) (fill : Bool → List Value → Kind → Nat → Value)
    (h : v.Fits outer) : v.expand ⟨cutInside, fill⟩ outer = v := by
  induction hv generalizing outer with
  | none | bool | int | text => rfl
  | list _ ih =>
    rw [expand, expandItems_eq_map, map_eq_self fun x hx => ?_]
    exact ih x hx (h.smaller (Nat.lt_succ_of_le (tally_le_items hx)))
  | tuple hxs ih =>
    rw [expand]
    simp only [cutInside_tuple (.tuple hxs) h, Option.getD_none]
    rw [expandItems_eq_map, map_eq_self fun x hx => ?_]
    exact ih x hx (h.within (.tuple hxs) (Nat.lt_succ_of_le (tally_le_items hx)))
  | dict _ _ _ ihk ihv =>
    rw [expand, expandEntries_eq_map, map_eq_self fun e he => ?_]
    have hle := tally_le_entries he
    rw [ihk e he (h.smaller (by rw [tally]; omega)), ihv e he (h.smaller (by rw [tally]; omega))]

end Value

/-- **Data are their own content.** -/
theorem Heap.deep_of_isData (h : Heap) {v : Value} (hv : v.IsData) : h.deep v = v :=
  Value.expand_of_isData hv _ fun _ ho => nomatch ho

end Trellis
