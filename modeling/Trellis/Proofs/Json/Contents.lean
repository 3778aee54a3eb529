import Trellis.Proofs.Evaluation.Contents
import Trellis.Proofs.Interpretation.Coupling
import Trellis.Proofs.Json.Reading

/-!
# Proofs — Json — Contents

Data on a heap.  Values whose content is data that serialized text gives back are serialized as
their content (`Json.serial_eq_deep`), and to store such data gives a value with this content
(`Json.store_deep`).

The cells of what is stored are new, and stay as they are while more is stored behind them.  So a
part keeps its content (`Stands`), and no part stands inside itself: what encloses it has a later
cell.
-/

namespace Trellis

namespace Heap

/-- The cells of the first heap are there in the second one, with what they hold. -/
structure LeadsTo (h h' : Heap) : Prop where
  size_le : h.cells.size ≤ h'.cells.size
  cell_eq : ∀ a < h.cells.size, h'.cells[a]? = h.cells[a]?

variable {h h' h'' : Heap}

theorem LeadsTo.refl (h : Heap) : h.LeadsTo h := ⟨le_rfl, fun _ _ => rfl⟩

/-- A heap that is led to leads to what comes after. -/
theorem LeadsTo.trans (hfirst : h.LeadsTo h') (hnext : h'.LeadsTo h'') : h.LeadsTo h'' where
  size_le := hfirst.size_le.trans hnext.size_le
  cell_eq a ha := (hnext.cell_eq a (ha.trans_le hfirst.size_le)).trans (hfirst.cell_eq a ha)

/-- The heap with a cell more. -/
def push (h : Heap) (c : Cell) : Heap :=
  { h with cells := h.cells.push c }

/-- One more cell makes a heap longer by one. -/
@[simp] theorem size_push (h : Heap) (c : Cell) : (h.push c).cells.size = h.cells.size + 1 :=
  Array.size_push c

/-- A heap leads to the one with one more cell. -/
theorem leadsTo_push (h : Heap) (c : Cell) : h.LeadsTo (h.push c) where
  size_le := by simp
  cell_eq a ha := by
    rw [push, Array.getElem?_push_lt ha, Array.getElem?_eq_getElem ha]

/-- A new cell stays where it is. -/
theorem LeadsTo.pushed {c : Cell} (hnext : (h.push c).LeadsTo h') :
    h'.cells[h.cells.size]? = some c := by
  rw [hnext.cell_eq h.cells.size (by simp), push, Array.getElem?_push_size]

end Heap

namespace Json

open List (Forall₂)
open Value (cutInside Expansion expandItems_eq_map expandEntries_eq_map)

variable {v : Value} {xs : List Value} {es : List (Value × Value)}

/-- The items of lossless data are lossless. -/
theorem Lossless.items (h : Lossless (.list xs)) : ∀ x ∈ xs, Lossless x := by
  cases h with
  | list h => exact h

/-- So are its entries, whose keys are texts. -/
theorem Lossless.entries (h : Lossless (.dict es)) :
    ∀ e ∈ es, (∃ s, e.1 = .text s) ∧ Lossless e.2 := by
  cases h with
  | dict hkeys _ h => exact fun e he => ⟨hkeys e he, h e he⟩

/-! ### What is serialized -/

/-- Where the content is data, the value is a container or its own content. -/
theorem expand_shape {outer : List Value} {fill : Bool → List Value → Kind → Nat → Value}
    (h : Lossless (v.expand ⟨cutInside, fill⟩ outer)) :
    (∃ k a, v = .ref k a) ∨ (∃ xs, v = .list xs) ∨ (∃ es, v = .dict es) ∨
      ∀ x : Expansion, v.expand x outer = v := by
  have hcut {w u : Value} (hw : ¬ Lossless u) : ¬ Lossless ((cutInside outer w).getD u) := by
    unfold cutInside
    split
    · exact nofun
    · exact hw
  cases v with
  | ref k a => exact .inl ⟨k, a, rfl⟩
  | list xs => exact .inr (.inl ⟨xs, rfl⟩)
  | dict es => exact .inr (.inr (.inl ⟨es, rfl⟩))
  | tuple xs => exact absurd h (hcut nofun)
  | object fs => exact absurd h (hcut nofun)
  | set xs n => exact nomatch h
  | generic f xs u => exact nomatch h
  | view p d m =>
    cases d with
    | ref k a => exact absurd h (hcut nofun)
    | _ => exact nomatch h
  | _ => exact .inr (.inr (.inr fun _ => rfl))

/-- Where the content is data, only references are to be filled in. -/
theorem expand_eq_of_lossless {outer : List Value} {stop : List Value → Value → Option Value}
    {fill fill' : Bool → List Value → Kind → Nat → Value}
    (hfill : ∀ k a, Lossless (fill true outer k a) → fill' true outer k a = fill true outer k a)
    (v : Value) (h : Lossless (v.expand ⟨cutInside, fill⟩ outer)) :
    v.expand ⟨stop, fill'⟩ outer = v.expand ⟨cutInside, fill⟩ outer := by
  rcases expand_shape h with ⟨k, a, rfl⟩ | ⟨xs, hv⟩ | ⟨es, hv⟩ | hv
  · exact hfill k a h
  · rw [hv, Value.expand, expandItems_eq_map] at h ⊢
    rw [Value.expand, expandItems_eq_map]
    congr 1
    exact List.map_congr_left fun x hx =>
      expand_eq_of_lossless hfill x (h.items _ (List.mem_map_of_mem hx))
  · rw [hv, Value.expand, expandEntries_eq_map] at h ⊢
    rw [Value.expand, expandEntries_eq_map]
    congr 1
    refine List.map_congr_left fun e he => ?_
    obtain ⟨⟨s, hs⟩, hvalue⟩ := h.entries _ (List.mem_map_of_mem he)
    have hkey : Lossless (e.1.expand ⟨cutInside, fill⟩ outer) :=
      (show e.1.expand ⟨cutInside, fill⟩ outer = .text s from hs) ▸ .text s
    rw [expand_eq_of_lossless hfill e.1 hkey, expand_eq_of_lossless hfill e.2 hvalue]
  · rw [hv, hv]
termination_by sizeOf v
decreasing_by
  · have := List.sizeOf_lt_of_mem hx
    rw [hv, Value.list.sizeOf_spec]
    omega
  all_goals
    have := Value.sizeOf_entry_lt he
    rw [hv, Value.dict.sizeOf_spec]
    omega

/-- Data is serialized as it is read on all levels. -/
theorem serialUnder_eq_deepUnder (h : Heap) (depth : Nat) (outer : List Value)
    (hv : Lossless (h.deepUnder depth outer v)) :
    h.serialUnder depth outer v = h.deepUnder depth outer v := by
  induction depth generalizing outer v with
  | zero => rfl
  | succ depth ih =>
    refine expand_eq_of_lossless (fun k a hfill => ?_) v hv
    unfold Heap.fill at hfill ⊢
    split
    · rfl
    · next hout =>
      rw [if_neg hout] at hfill
      split
      · next c hc =>
        rw [hc] at hfill
        exact ih _ hfill
      · rfl

/-- What is serialized of lossless data is what it is. -/
theorem serial_eq_deep {h : Heap} (hv : Lossless (h.deep v)) : h.serial v = h.deep v :=
  serialUnder_eq_deepUnder h _ [] hv

/-! ### What is stored -/

/-- None of the values around is a reference to one of the first cells. -/
def Clear (n : Nat) (outer : List Value) : Prop :=
  ∀ k, ∀ a < n, outer.any (Value.sameObject (.ref k a)) = false

/-- What is clear of addresses is clear of fewer. -/
theorem Clear.mono {m n : Nat} {outer : List Value} (h : Clear n outer) (hmn : m ≤ n) :
    Clear m outer :=
  fun k a ha => h k a (ha.trans_le hmn)

/-- It is clear under a cell beyond them. -/
theorem Clear.under {n : Nat} {outer : List Value} (h : Clear n outer) (k : Kind) :
    Clear n (.ref k n :: outer) := by
  intro l a ha
  rw [List.any_cons, h l a ha, Bool.or_false]
  simp [Value.sameObject, Nat.ne_of_lt ha]

/-- The value has the content `u`, on this heap and on all that it leads to, wherever the value
stands inside of later cells. -/
def Stands (h : Heap) (w u : Value) : Prop :=
  ∀ h', h.LeadsTo h' → ∀ depth, h.cells.size ≤ depth → ∀ outer, Clear h.cells.size outer →
    w.expand ⟨cutInside, h'.fill (h'.deepUnder depth)⟩ outer = u

variable {h h' : Heap} {w u : Value}

/-- What stands for a value does so in later heaps. -/
theorem Stands.later (hw : Stands h w u) (hh : h.LeadsTo h') : Stands h' w u :=
  fun _ hlast _ hdepth _ hclear =>
    hw _ (hh.trans hlast) _ (hh.size_le.trans hdepth) _ (hclear.mono hh.size_le)

/-- What stands for a value looks like it. -/
theorem Stands.deep_eq (hw : Stands h w u) : h.deep w = u :=
  hw h (.refl h) (h.cells.size + h.mark) (Nat.le_add_right _ _) [] fun _ _ _ => rfl

/-- The content of a new cell is that of the container which it holds. -/
theorem stands_push {k : Kind} {c : Cell} {d : Value}
    (hd : ∀ h', (h.push c).LeadsTo h' → h'.content h.cells.size = some d)
    (hu : ∀ h', h.LeadsTo h' → ∀ depth, h.cells.size ≤ depth → ∀ outer, Clear h.cells.size outer →
      d.expand ⟨cutInside, h'.fill (h'.deepUnder depth)⟩ outer = u) :
    Stands (h.push c) (.ref k h.cells.size) u := by
  intro h' hh depth hdepth outer hclear
  rw [Heap.size_push] at hdepth hclear
  obtain ⟨depth, rfl⟩ := Nat.exists_eq_add_one_of_ne_zero (Nat.ne_zero_of_lt hdepth)
  have hout : outer.any (Value.sameObject (.ref k h.cells.size)) = false :=
    hclear k h.cells.size (Nat.lt_succ_self _)
  have hfill : (Value.ref k h.cells.size).expand
      ⟨cutInside, h'.fill (h'.deepUnder (depth + 1))⟩ outer =
        h'.deepUnder (depth + 1) (.ref k h.cells.size :: outer) d := by
    show h'.fill (h'.deepUnder (depth + 1)) true outer k h.cells.size = _
    simp [Heap.fill, hout, hd h' hh]
  rw [hfill]
  exact hu h' ((Heap.leadsTo_push h c).trans hh) depth (Nat.le_of_succ_le_succ hdepth) _
    ((hclear.mono (Nat.le_succ _)).under k)

/-- A new list of what stands for items stands for the list of them. -/
theorem stands_list {ys xs : List Value} (hys : Forall₂ (Stands h) ys xs) :
    Stands (h.push (.list ys)) (.ref .list h.cells.size) (.list xs) := by
  refine stands_push (d := .list ys) (fun h' hh => ?_) fun h' hh depth hdepth outer hclear => ?_
  · rw [Heap.content, hh.pushed]
  · rw [Value.expand, expandItems_eq_map]
    congr 1
    induction hys with
    | nil => rfl
    | cons hy _ ih => rw [List.map_cons, hy h' hh depth hdepth outer hclear, ih]

/-- Entries with the same keys, the values of which have the contents in question. -/
def StandsAt (h : Heap) (f e : Value × Value) : Prop :=
  f.1 = e.1 ∧ Stands h f.2 e.2

/-- So it is with a dictionary, whose keys are texts and distinct. -/
theorem stands_dict {fs es : List (Value × Value)} (hfs : Forall₂ (StandsAt h) fs es)
    (hkeys : ∀ e ∈ es, ∃ s, e.1 = .text s) (hdistinct : (es.map (·.1)).Nodup) :
    Stands (h.push (.dict (Slots.ofList fs))) (.ref .dict h.cells.size) (.dict es) := by
  have hsame : fs.map (·.1) = es.map (·.1) := by
    clear hkeys hdistinct
    induction hfs with
    | nil => rfl
    | cons hf _ ih => rw [List.map_cons, List.map_cons, hf.1, ih]
  have hlive : (Slots.ofList fs).live = fs :=
    Slots.live_ofList (hsame ▸ distinct_of_nodup hkeys hdistinct)
  refine stands_push (d := .dict fs) (fun h' hh => ?_) fun h' hh depth hdepth outer hclear => ?_
  · rw [Heap.content, hh.pushed]
    exact congrArg (fun es => some (Value.dict es)) hlive
  · rw [Value.expand, expandEntries_eq_map]
    congr 1
    clear hdistinct hsame hlive
    induction hfs with
    | nil => rfl
    | cons hf _ ih =>
      obtain ⟨⟨s, hs⟩, hkeys⟩ := List.forall_mem_cons.mp hkeys
      rw [List.map_cons, hf.2 h' hh depth hdepth outer hclear, ih hkeys, hf.1, hs]
      exact congrArg (· :: _) (Prod.ext hs.symm rfl)

/-- To store the data gives a value with this content, and leaves the cells that are there. -/
def Stores (u : Value) : Prop :=
  ∀ h, ∃ w h', (Action.store u).run.run h = (.ok w, h') ∧ h.LeadsTo h' ∧ Stands h' w u

/-- A value without parts is stored as itself. -/
theorem stores_of_stands (hrun : ∀ h, (Action.store u).run.run h = (.ok u, h))
    (hu : ∀ x outer, u.expand x outer = u) : Stores u :=
  fun h => ⟨u, h, hrun h, .refl h, fun _ _ _ _ _ _ => hu _ _⟩

/-- Items are stored one after the other, each in the heap that those before it left. -/
theorem stores_items (h : ∀ x ∈ xs, Stores x) (h₀ : Heap) :
    ∃ ys h', (Action.storeItems xs).run.run h₀ = (.ok ys, h') ∧ h₀.LeadsTo h' ∧
      Forall₂ (Stands h') ys xs := by
  induction xs generalizing h₀ with
  | nil => exact ⟨[], h₀, rfl, .refl h₀, .nil⟩
  | cons x xs ih =>
    obtain ⟨hx, hxs⟩ := List.forall_mem_cons.mp h
    obtain ⟨y, h₁, hy, hfirst, hstands⟩ := hx h₀
    obtain ⟨ys, h₂, hys, hnext, hall⟩ := ih hxs h₁
    refine ⟨y :: ys, h₂, ?_, hfirst.trans hnext, .cons (hstands.later hnext) hall⟩
    rw [Action.storeItems, Action.run_bind_ok hy, Action.run_bind_ok hys]
    rfl

/-- So are entries. -/
theorem stores_entries (h : ∀ e ∈ es, Stores e.2) (h₀ : Heap) :
    ∃ fs h', (Action.storeEntries es).run.run h₀ = (.ok fs, h') ∧ h₀.LeadsTo h' ∧
      Forall₂ (StandsAt h') fs es := by
  induction es generalizing h₀ with
  | nil => exact ⟨[], h₀, rfl, .refl h₀, .nil⟩
  | cons e es ih =>
    obtain ⟨he, hes⟩ := List.forall_mem_cons.mp h
    obtain ⟨y, h₁, hy, hfirst, hstands⟩ := he h₀
    obtain ⟨fs, h₂, hfs, hnext, hall⟩ := ih hes h₁
    have hentry : (Action.storeEntry e).run.run h₀ = (.ok (e.1, y), h₁) := by
      rw [Action.storeEntry, Action.run_bind_ok hy]
      rfl
    refine ⟨(e.1, y) :: fs, h₂, ?_, hfirst.trans hnext, .cons ⟨rfl, hstands.later hnext⟩ hall⟩
    rw [Action.storeEntries, Action.run_bind_ok hentry, Action.run_bind_ok hfs]
    rfl

/-- By induction on the data: the cell of a container comes after those of its parts. -/
theorem stores_lossless (hu : Lossless u) : Stores u := by
  induction hu with
  | none => exact stores_of_stands (fun _ => rfl) fun _ _ => rfl
  | bool b => exact stores_of_stands (fun _ => rfl) fun _ _ => rfl
  | int _ => exact stores_of_stands (fun _ => rfl) fun _ _ => rfl
  | text s => exact stores_of_stands (fun _ => rfl) fun _ _ => rfl
  | @list xs _ ih =>
    intro h
    obtain ⟨ys, h', hys, hfirst, hall⟩ := stores_items ih h
    refine ⟨.ref .list h'.cells.size, h'.push (.list ys), ?_,
      hfirst.trans (Heap.leadsTo_push _ _), stands_list hall⟩
    rw [Action.store, Action.run_bind_ok hys]
    rfl
  | @dict es hkeys hdistinct _ ih =>
    intro h
    obtain ⟨fs, h', hfs, hfirst, hall⟩ := stores_entries ih h
    refine ⟨.ref .dict h'.cells.size, h'.push (.dict (Slots.ofList fs)), ?_,
      hfirst.trans (Heap.leadsTo_push _ _), stands_dict hall hkeys hdistinct⟩
    rw [Action.store, Action.run_bind_ok hfs]
    rfl

/-- **Stored data keeps its content.** -/
theorem store_deep (hu : Lossless u) (h : Heap) :
    ∃ w h', (Action.store u).run.run h = (.ok w, h') ∧ h.LeadsTo h' ∧ h'.deep w = u := by
  obtain ⟨w, h', hrun, hh, hstands⟩ := stores_lossless hu h
  exact ⟨w, h', hrun, hh, hstands.deep_eq⟩

end Json
end Trellis
