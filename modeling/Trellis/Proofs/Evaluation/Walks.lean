import Trellis.Proofs.Interpretation.Coupling
import Trellis.Value.Walk

/-!
# Proofs — Evaluation — Walks

What a walk through a collection yields while nothing changes the collection.  `Walk.pairsOf` are
the pairs of a collection on a heap, and `Walk.Left` says which of them a walk has not met: a walk
starts with all of them (`Walk.starts`), every step takes the first one off (`Walk.Left.next_nil`,
`Walk.Left.next_cons`), and only a change of the one cell that holds the collection is met on the way
(`Walk.Left.frame`).
-/

namespace Trellis

/-- The address of the container that a value is, or shows a part of. -/
def Value.address? : Value → Option Nat
  | .ref _ a => some a
  | .view _ d _ => d.address?
  | _ => Option.none

/-- What the heap holds of a collection. -/
def Heap.held (h : Heap) (v : Value) : Option Cell :=
  v.address?.bind fun a => h.cells[a]?

namespace Heap

variable {h h' : Heap} {v d : Value} {k : Kind} {a : Nat}

/-- What a value holds is the same if its cell is. -/
theorem cells_eq_of_held (hheld : h'.held v = h.held v) (ha : v.address? = some a) :
    h'.cells[a]? = h.cells[a]? := by
  simpa only [held, ha, Option.bind_some] using hheld

/-- The content of a collection is read off what is held of it. -/
theorem view_eq_of_held (hheld : h'.held v = h.held v) : h'.view v = h.view v := by
  cases v with
  | ref k a => rw [view, view, content, content, cells_eq_of_held hheld rfl]
  | _ => rfl

/-- The storage of a dictionary is read off what is held of it, or of a part that is shown. -/
theorem slots_eq_of_held (haddress : d.address? = v.address?) (hheld : h'.held v = h.held v) :
    h'.slots d = h.slots d := by
  have hd : h'.held d = h.held d := by
    rw [held, held, haddress]
    exact hheld
  cases d with
  | ref k a => rw [slots, slots, cells_eq_of_held hd rfl]
  | _ => rfl

end Heap

/-! ### Slots -/

namespace Slots

variable {s : Slots} {n : Nat} {e : Value × Value} {es : List (Value × Value)}

/-- The entries in the slot `n` and behind it. -/
def entriesFrom (s : Slots) (n : Nat) : List (Value × Value) :=
  (s.slots.drop n).filterMap id

theorem drop_zipIdx {α : Type} (l : List α) (i n : Nat) :
    (l.zipIdx i).drop n = (l.drop n).zipIdx (i + n) := by
  induction l generalizing i n with
  | nil => simp
  | cons a l ih =>
    cases n with
    | zero => rfl
    | succ n => rw [List.zipIdx_cons, List.drop_succ_cons, List.drop_succ_cons, ih, Nat.add_right_comm,
        Nat.add_assoc]

/-- A dictionary without entries from a slot on has no next one. -/
theorem next?_of_nil (h : s.entriesFrom n = []) : s.next? n = none := by
  rw [next?, drop_zipIdx, List.findSome?_eq_none_iff]
  rintro ⟨o, i⟩ ho
  cases o with
  | none => rfl
  | some e =>
    have hmem : e ∈ s.entriesFrom n := List.mem_filterMap.mpr ⟨_, List.fst_mem_of_mem_zipIdx ho, rfl⟩
    rw [h] at hmem
    cases hmem

/-- The first of the entries is found, and the others stand behind its slot. -/
theorem next?_of_cons (h : s.entriesFrom n = e :: es) :
    ∃ m, s.next? n = some (e, m) ∧ s.entriesFrom m = es := by
  have found (l : List (Option (Value × Value))) (i : Nat) (hl : l.filterMap id = e :: es) :
      ∃ k, ((l.zipIdx i).findSome? fun x => x.1.map fun y => (y, x.2 + 1)) = some (e, i + k) ∧
        (l.drop k).filterMap id = es := by
    induction l generalizing i with
    | nil => cases hl
    | cons o l ih =>
      cases o with
      | none =>
        obtain ⟨k, hk, hrest⟩ := ih (i + 1) hl
        exact ⟨k + 1, by rw [← Nat.add_assoc, Nat.add_right_comm]; exact hk, hrest⟩
      | some x =>
        obtain ⟨rfl, hrest⟩ := List.cons.inj hl
        exact ⟨1, rfl, hrest⟩
  obtain ⟨k, hk, hrest⟩ := found (s.slots.drop n) (0 + n) h
  refine ⟨n + k, ?_, ?_⟩
  · rw [next?, drop_zipIdx, hk, Nat.zero_add]
  · rw [entriesFrom, ← List.drop_drop]
    exact hrest

end Slots

/-! ### What a walk has not met -/

namespace DictWalk

/-- What is walked at entries in a row. -/
def shownEntries (w : DictWalk) (es : List (Value × Value)) : List (Value × Value) :=
  (es.zipIdx w.met).map fun x => { w with met := x.2 }.shownEntry x.1

/-- The entries `es` are the ones that have not been met, of a dictionary of the size it had. -/
structure Ahead (h : Heap) (w : DictWalk) (es : List (Value × Value)) : Prop where
  size : (h.slots w.dict).live.length = w.size
  entries : (h.slots w.dict).entriesFrom w.slot = es
  met : w.met + es.length = w.size

variable {h : Heap} {w : DictWalk} {e : Value × Value} {es : List (Value × Value)}

/-- A walk over a dictionary that has not changed in size goes to its next entry. -/
theorem run_next (w : DictWalk) (h : Heap) :
    w.next.run.run h =
      if (h.slots w.dict).live.length ≠ w.size then (.error (.basic .resized), h)
      else
        match (h.slots w.dict).next? w.slot with
        | none => (.ok none, h)
        | some (e, slot) =>
          if w.size ≤ w.met then (.error (.basic .rekeyed), h)
          else (.ok (some (w.shownEntry e, { w with slot, met := w.met + 1 })), h) := by
  rw [next, Action.run_bind]
  change (ite _ _ _ : Action _).run.run h = _
  split
  · rfl
  · cases (h.slots w.dict).next? w.slot with
    | none => rfl
    | some p =>
      change (ite _ _ _ : Action _).run.run h = ite _ _ _
      split <;> rfl

/-- A walk with nothing ahead ends. -/
theorem Ahead.next_nil (ha : w.Ahead h []) : w.next.run.run h = (.ok none, h) := by
  rw [run_next, if_neg (not_not_intro ha.size), Slots.next?_of_nil ha.entries]

/-- One with an entry ahead comes to it, and has the others ahead then. -/
theorem Ahead.next_cons (ha : w.Ahead h (e :: es)) :
    ∃ w', w.next.run.run h = (.ok (some (w.shownEntry e, w')), h) ∧ w'.Ahead h es ∧
      w'.dict = w.dict ∧ w.shownEntries (e :: es) = w.shownEntry e :: w'.shownEntries es := by
  obtain ⟨m, hnext, hrest⟩ := Slots.next?_of_cons ha.entries
  have hmet : w.met + (es.length + 1) = w.size := ha.met
  refine ⟨{ w with slot := m, met := w.met + 1 }, ?_, ⟨ha.size, hrest, ?_⟩, rfl, rfl⟩
  · rw [run_next, if_neg (not_not_intro ha.size), hnext]
    exact if_neg (by omega)
  · change w.met + 1 + es.length = w.size
    omega

end DictWalk

namespace Walk

variable {h h' : Heap} {v : Value} {w : Walk} {p : Value × Value} {ps : List (Value × Value)}

/-- The numbers of a range from a position on, with their positions. -/
def numbers (start step : Int) (length position : Nat) : List (Value × Value) :=
  (List.range' position (length - position)).map fun i : Nat => (.int i, .int (start + i * step))

/-- The pairs of a collection on a heap: the entries of a dictionary in the order of their keys, the
numbered items of any other, and none of the empty value. -/
def pairsOf (h : Heap) : Value → Except Fault (List (Value × Value))
  | .none => .ok []
  | .view p d _ => .ok (numbered (Value.viewItems p (h.slots d).live))
  | .range a b c => .ok (numbers a c (Value.rangeLength a b c) 0)
  | v =>
    match h.view v with
    | .dict _ => .ok (h.slots v).live
    | w => ((Value.items w).run.run h).1.map numbered

/-- The pairs `ps` of the collection `v` are the ones that a walk has not met. -/
inductive Left (h : Heap) (v : Value) : Walk → List (Value × Value) → Prop where
  | fixed (ps : List (Value × Value)) : Left h v (.fixed ps) ps
  | range (a c : Int) (n i : Nat) : Left h v (.range a c n i) (numbers a c n i)
  | list {xs : List Value} (hview : h.view v = .list xs) (i : Nat) :
      Left h v (.list v i) ((numbered xs).drop i)
  | dict {w : DictWalk} {es : List (Value × Value)} (haddress : w.dict.address? = v.address?)
      (hahead : w.Ahead h es) : Left h v (.dict w) (w.shownEntries es)

/-- Only what is held of the collection matters. -/
theorem Left.frame (hleft : Left h v w ps) (hheld : h'.held v = h.held v) : Left h' v w ps := by
  cases hleft with
  | fixed ps => exact .fixed ps
  | range a c n i => exact .range a c n i
  | list hview i => exact .list ((Heap.view_eq_of_held hheld).trans hview) i
  | dict haddress hahead =>
    have hslots := Heap.slots_eq_of_held haddress hheld
    exact .dict haddress ⟨hslots ▸ hahead.size, hslots ▸ hahead.entries, hahead.met⟩

/-! ### Steps -/

/-- A walk over a list comes to the item in its place. -/
theorem run_next_list (l : Value) (i : Nat) (h : Heap) {xs : List Value}
    (hview : h.view l = .list xs) :
    (next (.list l i)).run.run h =
      (.ok (xs[i]?.map fun x => ((.int i, x), .list l (i + 1))), h) := by
  have hrun : (Action.view l).run.run h = (.ok (.list xs), h) := by
    rw [← hview]
    rfl
  rw [next, Action.run_bind, hrun]
  cases hx : xs[i]? with
  | none => simp only [hx]; rfl
  | some x => simp only [hx]; rfl

/-- A walk over a dictionary goes as the dictionary does. -/
theorem run_next_dict (w : DictWalk) (h : Heap) :
    (next (.dict w)).run.run h =
      match w.next.run.run h with
      | (.ok o, h') => (.ok (o.map fun p => (p.1, .dict p.2)), h')
      | (.error f, h') => (.error f, h') := by
  rw [next, Action.run_bind]
  rcases w.next.run.run h with ⟨f | _ | _, h'⟩ <;> rfl

/-- A walk that has met everything ends. -/
theorem Left.next_nil (hleft : Left h v w []) : w.next.run.run h = (.ok none, h) := by
  generalize hps : ([] : List (Value × Value)) = ps at hleft
  cases hleft with
  | fixed => rw [← hps]; rfl
  | range a c n i =>
    have hn : 0 = n - i := by
      simpa [numbers] using congrArg List.length hps
    rw [next, if_neg (by omega)]
    rfl
  | @list xs hview i =>
    have hi : xs.length ≤ i := by
      simpa [numbered] using hps.symm
    rw [run_next_list v i h hview, List.getElem?_eq_none hi]
    rfl
  | @dict w es haddress hahead =>
    have hes : es = [] := by
      simpa [DictWalk.shownEntries] using hps.symm
    have hahead : w.Ahead h [] := hes ▸ hahead
    rw [run_next_dict, hahead.next_nil]
    rfl

/-- A step takes the first pair off what a walk has not met, and does nothing else. -/
theorem Left.next_cons (hleft : Left h v w (p :: ps)) :
    ∃ w', w.next.run.run h = (.ok (some (p, w')), h) ∧ Left h v w' ps := by
  generalize hqs : p :: ps = qs at hleft
  cases hleft with
  | fixed =>
    subst hqs
    exact ⟨.fixed ps, rfl, .fixed ps⟩
  -- the numbers that are left begin with the one that is next
  | range a c n i =>
    have hn : i < n := by
      have hlength := congrArg List.length hqs
      simp only [numbers, List.length_cons, List.length_map, List.length_range'] at hlength
      omega
    have hfirst : numbers a c n i = (.int i, .int (a + i * c)) :: numbers a c n (i + 1) := by
      rw [numbers, show n - i = n - (i + 1) + 1 by omega, List.range'_succ]
      rfl
    obtain ⟨rfl, rfl⟩ := List.cons.inj (hqs.trans hfirst)
    refine ⟨.range a c n (i + 1), ?_, .range a c n (i + 1)⟩
    rw [next, if_pos hn]
    rfl
  | @list xs hview i =>
    have hi : i < xs.length := by
      by_contra hle
      rw [numbered, List.drop_eq_nil_of_le (by simpa using hle)] at hqs
      cases hqs
    have hfirst : (numbered xs).drop i = (.int i, xs[i]) :: (numbered xs).drop (i + 1) := by
      rw [List.drop_eq_getElem_cons (by simpa [numbered] using hi)]
      simp [numbered]
    obtain ⟨rfl, rfl⟩ := List.cons.inj (hqs.trans hfirst)
    refine ⟨.list v (i + 1), ?_, .list hview (i + 1)⟩
    rw [run_next_list v i h hview, List.getElem?_eq_getElem hi]
    rfl
  -- the walk over the entries takes its step, on the dictionary as it is then
  | @dict w es haddress hahead =>
    cases es with
    | nil => cases hqs
    | cons e es =>
      obtain ⟨w', hnext, hahead', hdict, hshown⟩ := hahead.next_cons
      obtain ⟨rfl, rfl⟩ := List.cons.inj (hqs.trans hshown)
      refine ⟨.dict w', ?_, .dict (hdict ▸ haddress) hahead'⟩
      rw [run_next_dict, hnext]
      rfl

/-! ### The start -/

/-- A walk through a dictionary starts with all its entries. -/
theorem start_ahead (d : Value) (part : Option Part) (h : Heap) :
    DictWalk.Ahead h ⟨d, part, (h.slots d).live.length, 0, 0⟩ (h.slots d).live :=
  ⟨rfl, rfl, Nat.zero_add _⟩

/-- A dictionary shows its entries. -/
theorem shownEntries_none (d : Value) (k : Nat) (es : List (Value × Value)) :
    DictWalk.shownEntries ⟨d, none, k, 0, 0⟩ es = es := by
  have fst (i : Nat) : (es.zipIdx i).map (fun x => x.1) = es := List.zipIdx_map_fst i es
  exact fst 0

/-- A view of one shows a part of them, with numbers. -/
theorem shownEntries_some (d : Value) (p : Part) (k : Nat) (es : List (Value × Value)) :
    DictWalk.shownEntries ⟨d, some p, k, 0, 0⟩ es = numbered (Value.viewItems p es) := by
  cases p <;>
    simp [DictWalk.shownEntries, DictWalk.shownEntry, numbered, Value.viewItems, List.zipIdx_map,
      Function.comp_def]

/-- The items of a value are told without a change of the heap. -/
theorem items_leaves (v : Value) (h : Heap) : ((Value.items v).run.run h).2 = h := by
  have range (a b c : Int) : ((Value.rangeItems a b c).run.run h).2 = h := by
    unfold Value.rangeItems
    dsimp only
    split
    · rfl
    · split <;> rfl
  have entries (d : Value) : ((Value.entriesOf d).run.run h).2 = h := by
    rw [Value.entriesOf, Action.run_bind]
    change ((match h.view d with | .dict es => _ | _ => _ : Action _).run.run h).2 = h
    split <;> rfl
  have bind {α β : Type} {x : Action α} {f : α → Action β} (hx : (x.run.run h).2 = h)
      (hf : ∀ a, ((f a).run.run h).2 = h) : ((x >>= f).run.run h).2 = h := by
    rw [Action.run_bind]
    rcases hr : x.run.run h with ⟨e | a, h'⟩ <;> rw [hr] at hx
    · exact hx
    · obtain rfl : h' = h := hx
      exact hf a
  refine bind ?_ fun xs => ?_
  · refine bind rfl fun w => ?_
    split
    case h_5 => exact bind (range ..) fun _ => rfl
    case h_7 => exact bind (entries _) fun _ => rfl
    all_goals rfl
  · cases xs <;> rfl

/-- A walk has started with all pairs of its collection, or has failed where these cannot be
told. -/
def Starts (h : Heap) (v : Value) (pairs : Except Fault (List (Value × Value)))
    (r : Except Fault Walk × Heap) : Prop :=
  (∃ f, pairs = .error f ∧ r = (.error f, h)) ∨
    ∃ ps w, pairs = .ok ps ∧ r = (.ok w, h) ∧ Left h v w ps

/-- A walk over items goes through those that are there at the start. -/
theorem starts_items (v : Value) (h : Heap) :
    Starts h v (((Value.items v).run.run h).1.map numbered)
      ((do return Walk.fixed (numbered (← Value.items v)) : Action Walk).run.run h) := by
  have hleaves := items_leaves v h
  rw [Action.run_bind]
  rcases hr : (Value.items v).run.run h with ⟨f | xs, h'⟩ <;> rw [hr] at hleaves
  · obtain rfl : h' = h := hleaves
    exact .inl ⟨f, rfl, rfl⟩
  · obtain rfl : h' = h := hleaves
    exact .inr ⟨numbered xs, .fixed (numbered xs), rfl, rfl, .fixed _⟩

/-- A walk over a dictionary goes through its entries. -/
theorem starts_dict (v d : Value) (part : Option Part) (h : Heap) (haddress : d.address? = v.address?)
    (hps : DictWalk.shownEntries ⟨d, part, (h.slots d).live.length, 0, 0⟩ (h.slots d).live = ps) :
    Starts h v (.ok ps)
      (.ok (.dict ⟨d, part, (h.slots d).live.length, 0, 0⟩), h) :=
  .inr ⟨ps, _, rfl, rfl, hps ▸ .dict haddress (start_ahead d part h)⟩

/-- Whatever can be walked over is gone through in the pairs that it has at the start. -/
theorem starts (v : Value) (h : Heap) :
    Starts h v (pairsOf h v) ((start v).run.run h) := by
  have dict (d : Value) : Starts h d (.ok (h.slots d).live)
      (.ok (.dict ⟨d, none, (h.slots d).live.length, 0, 0⟩), h) :=
    starts_dict d d none h rfl (shownEntries_none _ _ _)
  cases v with
  | none => exact .inr ⟨[], .fixed [], rfl, rfl, .fixed []⟩
  | view p d m =>
    exact starts_dict _ d (some p) h rfl (shownEntries_some _ _ _ _)
  | range a b c => exact .inr ⟨_, _, rfl, rfl, .range a c _ 0⟩
  | list xs => exact .inr ⟨numbered xs, .list (.list xs) 0, rfl, rfl, .list rfl 0⟩
  | dict es => exact dict (.dict es)
  | ref k a =>
    -- an address holds a list or a dictionary, or nothing that has items
    have hcontent : h.content a = none ∨ (∃ xs, h.content a = some (.list xs)) ∨
        ∃ s, h.content a = some (.dict s) := by
      unfold Heap.content
      split
      · exact .inr (.inl ⟨_, rfl⟩)
      · exact .inr (.inr ⟨_, rfl⟩)
      · exact .inl rfl
    have hview : h.view (.ref k a) = (h.content a).getD (.ref k a) := rfl
    have hrun : (Action.view (.ref k a)).run.run h = (.ok (h.view (.ref k a)), h) := rfl
    simp only [pairsOf, start, Action.run_bind, hrun]
    obtain hc | ⟨xs, hc⟩ | ⟨es, hc⟩ := hcontent <;> rw [hc] at hview <;> rw [hview]
    · exact starts_items _ h
    · exact .inr ⟨numbered xs, .list _ 0, rfl, rfl, .list hview 0⟩
    · exact dict _
  | _ => exact starts_items _ h

end Walk
end Trellis
