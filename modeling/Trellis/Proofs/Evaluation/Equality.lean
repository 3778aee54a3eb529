import Trellis.Value.Operators
import Trellis.Proofs.Evaluation.Contents

/-!
# Proofs — Evaluation — Equality

The laws of the comparison operators on a heap (`Heap.equality_laws`), for the values whose content
is data (`Heap.Data`).

An operator compares the contents of its operands, whole or item by item, so that its result is
that of a relation between values that hold their content.  That relation is the one of alike values
for the loose comparison, and for the strict one that of alike values of one type; the laws are read
off these.
-/

namespace Trellis

open Value (Alike IsData)
open Operation (apply)

namespace Heap

/-- The values whose content on the heap is data. -/
abbrev Data (h : Heap) : Type :=
  {v : Value // (h.deep v).IsData}

/-- The result of an operator, and the heap that is left. -/
def result (h : Heap) (op : Operator) (v w : Value) : Except Fault Value × Heap :=
  (apply op v w).run.run h

/-- The result of the operator is true, and the heap is left as it is. -/
def Holds (h : Heap) (op : Operator) (v w : Value) : Prop :=
  h.result op v w = (.ok (.bool true), h)

variable {h : Heap} {op : Operator} {v w : Value}

/-- A comparison with a result holds if the result is true. -/
theorem holds_iff_of_result {b : Bool} (hb : h.result op v w = (.ok (.bool b), h)) :
    h.Holds op v w ↔ b = true := by
  rw [Holds, hb]
  simp

/-! ### Results -/

/-- The content of a set or of a view is one, and no data. -/
theorem isSetLike_eq_false (hv : (h.deep v).IsData) : Membership.isSetLike v = false := by
  cases v with
  | set xs n => exact nomatch hv
  | view part d m =>
    have hview : ∃ d', h.deep (.view part d m) = .view part d' m := by
      cases d <;> exact ⟨_, rfl⟩
    obtain ⟨d', hd'⟩ := hview
    rw [hd'] at hv
    exact nomatch hv
  | _ => rfl

/-- Loose equality on the heap is that of the values that the heap holds. -/
theorem result_eq (hv : (h.deep v).IsData) :
    h.result .eq v w = (.ok (.bool (Value.looseEq (h.deep v) (h.deep w))), h) := by
  rw [result, apply, Operation.related, Operation.looseEq, isSetLike_eq_false hv]
  rfl

/-- Its negation is told from it. -/
theorem result_ne (hv : (h.deep v).IsData) :
    h.result .ne v w = (.ok (.bool !Value.looseEq (h.deep v) (h.deep w)), h) := by
  rw [result, apply, Operation.unrelated, Operation.looseEq, isSetLike_eq_false hv]
  rfl

/-- So is strict equality on the heap. -/
theorem result_strictEq (hv : (h.deep v).IsData) :
    h.result .strictEq v w = (.ok (.bool (Value.strictEq (h.deep v) (h.deep w))), h) := by
  rw [result, apply, Operation.related, Operation.strictEq, isSetLike_eq_false hv]
  rfl

/-- And so is its negation. -/
theorem result_strictNe (hv : (h.deep v).IsData) :
    h.result .strictNe v w = (.ok (.bool !Value.strictEq (h.deep v) (h.deep w)), h) := by
  rw [result, apply, Operation.unrelated, Operation.strictEq, isSetLike_eq_false hv]
  rfl

/-- The items of a list are compared with the value that is looked for. -/
theorem result_isIn {xs : List Value} (hw : h.view w = .list xs) :
    h.result .isIn v w =
      (.ok (.bool (xs.any fun x => Value.sameItem (h.deep x) (h.deep v))), h) := by
  have hrun : (Membership.contains v w).run.run h =
      (.ok (xs.any fun x => Value.sameItem (h.deep x) (h.deep v)), h) := by
    have hget : (get : Action Heap).run.run h = (.ok h, h) := rfl
    rw [Membership.contains, Action.run_bind, hget]
    simp only [hw]
    rfl
  rw [result, apply, Operation.related, Action.run_bind, hrun]
  rfl

/-! ### The relations that the operators tell -/

/-- Loose equality is that of alike contents. -/
theorem holds_eq_iff (hv : (h.deep v).IsData) (hw : (h.deep w).IsData) :
    h.Holds .eq v w ↔ Alike (h.deep v) (h.deep w) := by
  rw [holds_iff_of_result (result_eq hv), Value.looseEq_iff_alike hv hw]

/-- Strict equality is that of alike contents of one type. -/
theorem holds_strictEq_iff (hv : (h.deep v).IsData) (hw : (h.deep w).IsData) :
    h.Holds .strictEq v w ↔
      (h.deep v).typeName = (h.deep w).typeName ∧ Alike (h.deep v) (h.deep w) := by
  rw [holds_iff_of_result (result_strictEq hv), Value.strictEq_iff_alike hv hw]

/-- What is loosely unequal is not loosely equal, and the other way around. -/
theorem holds_ne_iff (hv : (h.deep v).IsData) : h.Holds .ne v w ↔ ¬ h.Holds .eq v w := by
  rw [holds_iff_of_result (result_ne hv), holds_iff_of_result (result_eq hv), Bool.not_eq_true',
    Bool.not_eq_true]

/-- So it is with strict equality. -/
theorem holds_strictNe_iff (hv : (h.deep v).IsData) :
    h.Holds .strictNe v w ↔ ¬ h.Holds .strictEq v w := by
  rw [holds_iff_of_result (result_strictNe hv), holds_iff_of_result (result_strictEq hv),
    Bool.not_eq_true', Bool.not_eq_true]

/-- What is in a list is equal to one of its items. -/
theorem holds_isIn_iff {xs : List Value} (hl : h.view w = .list xs) (hv : (h.deep v).IsData)
    (hxs : ∀ x ∈ xs, (h.deep x).IsData) :
    h.Holds .isIn v w ↔ ∃ x ∈ xs, h.Holds .eq x v := by
  rw [holds_iff_of_result (result_isIn hl), List.any_eq_true]
  refine exists_congr fun x => and_congr_right fun hx => ?_
  rw [Value.sameItem_iff_alike (hxs x hx) hv, holds_eq_iff (hxs x hx) hv]

/-- Being alike is an equivalence of the values whose content is data. -/
theorem alike_equivalence (h : Heap) :
    Equivalence fun v w : h.Data => Alike (h.deep v) (h.deep w) :=
  ⟨fun v => .refl v.2, .symm, .trans⟩

/-! ### The laws -/

/-- The laws of equality, for values whose content is data. -/
structure EqualityLaws (h : Heap) : Prop where
  /-- Data are among these values: they are their own content, whatever there is on the heap. -/
  deep_eq : ∀ v : Value, v.IsData → h.deep v = v
  /-- Every comparison of two values has a truth value, and changes nothing. -/
  total : ∀ op ∈ [Operator.eq, .ne, .strictEq, .strictNe], ∀ v w : h.Data,
    ∃ b, h.result op v w = (.ok (.bool b), h)
  loose : Equivalence fun v w : h.Data => h.Holds .eq v w
  strict : Equivalence fun v w : h.Data => h.Holds .strictEq v w
  loose_of_strict : ∀ v w : h.Data, h.Holds .strictEq v w → h.Holds .eq v w
  ne_iff : ∀ v w : h.Data, h.Holds .ne v w ↔ ¬ h.Holds .eq v w
  strictNe_iff : ∀ v w : h.Data, h.Holds .strictNe v w ↔ ¬ h.Holds .strictEq v w
  /-- Values that are strictly equal are of one type. -/
  type_eq : ∀ v w : h.Data, h.Holds .strictEq v w → (h.deep v).typeName = (h.deep w).typeName
  /-- To look for a value in a list of such values has a truth value and changes nothing; the value
  is in the list just if an item is equal to it. -/
  mem_iff : ∀ (v : h.Data) (l : Value) (xs : List h.Data), h.view l = .list (xs.map (·.1)) →
    (∃ b, h.result .isIn v l = (.ok (.bool b), h)) ∧ (h.Holds .isIn v l ↔ ∃ x ∈ xs, h.Holds .eq x v)
  /-- Equality is that of values which differ in the order of the entries of dictionaries and in
  truth values for numbers at most, at any depth. -/
  loose_iff_alike : ∀ v w : h.Data, h.Holds .eq v w ↔ Alike (h.deep v) (h.deep w)
  /-- Dictionaries of the same entries are equal, whatever the order. -/
  order : ∀ (v w : h.Data) (es fs : List (Value × Value)), h.deep v = .dict es →
    h.deep w = .dict fs → es.Perm fs → h.Holds .eq v w ∧ h.Holds .strictEq v w
  /-- Numbers in the place of all truth values make no difference to what is equal to a value. -/
  loose_unbool_iff : ∀ v v' w : h.Data, h.deep v' = (h.deep v).unbool →
    (h.Holds .eq v' w ↔ h.Holds .eq v w)
  /-- A key finds the same with numbers in the place of truth values. -/
  lookup?_unbool : ∀ (k : h.Data) (es : List (Value × Value)), (∀ e ∈ es, e.1.IsData) →
    Value.lookup? (h.deep k).unbool es = Value.lookup? (h.deep k) es

/-- **Strict and loose equality are coherent.** -/
theorem equality_laws (h : Heap) : h.EqualityLaws where
  deep_eq v hv := h.deep_of_isData hv
  total op hop v w := by
    rcases List.mem_cons.mp hop with rfl | hop
    · exact ⟨_, result_eq v.2⟩
    rcases List.mem_cons.mp hop with rfl | hop
    · exact ⟨_, result_ne v.2⟩
    rcases List.mem_cons.mp hop with rfl | hop
    · exact ⟨_, result_strictEq v.2⟩
    · obtain rfl := List.mem_singleton.mp hop
      exact ⟨_, result_strictNe v.2⟩
  loose := by
    have hrel : (fun v w : h.Data => h.Holds .eq v w) =
        fun v w : h.Data => Alike (h.deep v) (h.deep w) := by
      funext v w
      exact propext (holds_eq_iff v.2 w.2)
    -- loose equality is alikeness of what the values are in the heap
    rw [hrel]
    exact alike_equivalence h
  strict := by
    have hrel : (fun v w : h.Data => h.Holds .strictEq v w) = fun v w : h.Data =>
        (h.deep v).typeName = (h.deep w).typeName ∧ Alike (h.deep v) (h.deep w) := by
      funext v w
      exact propext (holds_strictEq_iff v.2 w.2)
    rw [hrel]
    exact ⟨fun v => ⟨rfl, .refl v.2⟩, fun hvw => ⟨hvw.1.symm, hvw.2.symm⟩,
      fun hvw hwu => ⟨hvw.1.trans hwu.1, hvw.2.trans hwu.2⟩⟩
  loose_of_strict v w hvw :=
    (holds_eq_iff v.2 w.2).mpr ((holds_strictEq_iff v.2 w.2).mp hvw).2
  ne_iff v _ := holds_ne_iff v.2
  strictNe_iff v _ := holds_strictNe_iff v.2
  type_eq v w hvw := ((holds_strictEq_iff v.2 w.2).mp hvw).1
  mem_iff v l xs hl := by
    have hxs : ∀ x ∈ xs.map (·.1), (h.deep x).IsData := List.forall_mem_map.mpr fun x _ => x.2
    refine ⟨⟨_, result_isIn hl⟩, (holds_isIn_iff hl v.2 hxs).trans ?_⟩
    simp only [List.mem_map, exists_exists_and_eq_and]
  loose_iff_alike v w := holds_eq_iff v.2 w.2
  order v w es fs hv hw horder := by
    have halike : Alike (h.deep v) (h.deep w) := by
      rw [hv, hw]
      exact .of_perm (hv ▸ v.2) horder
    have htype : (h.deep v).typeName = (h.deep w).typeName := by rw [hv, hw]; rfl
    exact ⟨(holds_eq_iff v.2 w.2).mpr halike, (holds_strictEq_iff v.2 w.2).mpr ⟨htype, halike⟩⟩
  loose_unbool_iff v v' w hv' := by
    rw [holds_eq_iff v'.2 w.2, holds_eq_iff v.2 w.2, hv']
    have halike := Value.alike_unbool v.2
    exact ⟨halike.trans, halike.symm.trans⟩
  lookup?_unbool k _ hes := Value.lookup?_unbool k.2 hes

/-- Dictionaries that differ in the order of their entries, in a key and in an item. -/
example :
    let v := Value.dict [(.bool true, .list [.int 0]), (.text "a", .none)]
    let w := Value.dict [(.text "a", .none), (.int 1, .list [.bool false])]
    Heap.empty.Holds .eq v w ∧ Heap.empty.Holds .strictEq v w := by
  exact ⟨rfl, rfl⟩

end Heap
end Trellis
