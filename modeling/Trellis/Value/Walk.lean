import Trellis.Value.Access

/-!
# Value — Walk

Going through a collection while it may change.  A walk yields pairs: the keys of a dictionary with
their values, or the positions of other items with the items.  It looks at a list or dictionary
again at every step, so that it meets items that have been added meanwhile, and it stops with a
failure at a dictionary whose size has changed, or which has more entries to go through than it had.
-/

namespace Trellis

/-- The walk through a dictionary.  A part is walked as items, the dictionary itself as pairs. -/
structure DictWalk where
  dict : Value
  part : Option Part
  /-- The number of entries that the dictionary had. -/
  size : Nat
  /-- The slot from which on entries have not been met. -/
  slot : Nat
  /-- The number of entries that have been met. -/
  met : Nat

/-- The rest of a walk. -/
inductive Walk where
  /-- The pairs that are left. -/
  | fixed (pairs : List (Value × Value))
  /-- The numbers of a range from a position on, up to the position `length`. -/
  | range (start step : Int) (length position : Nat)
  /-- The items of a list from a position on. -/
  | list (l : Value) (position : Nat)
  | dict (w : DictWalk)

namespace DictWalk

/-- The walk through a dictionary, or a part of it. -/
def start (d : Value) (part : Option Part) : Action DictWalk := do
  return ⟨d, part, (← Action.slots d).live.length, 0, 0⟩

/-- What is walked at an entry. -/
def shownEntry (w : DictWalk) (e : Value × Value) : Value × Value :=
  match w.part with
  | none => e
  | some .keys => (.int w.met, e.1)
  | some .values => (.int w.met, e.2)
  | some .items => (.int w.met, .tuple [e.1, e.2])

/-- The next pair and the rest of the walk. -/
def next (w : DictWalk) : Action (Option ((Value × Value) × DictWalk)) := do
  let s ← Action.slots w.dict
  if s.live.length ≠ w.size then Action.fail .resized
  else
    match s.next? w.slot with
    | none => return none
    | some (e, slot) =>
      if w.size ≤ w.met then Action.fail .rekeyed
      else return some (w.shownEntry e, { w with slot, met := w.met + 1 })

end DictWalk

namespace Walk

/-- Items with their positions. -/
def numbered (xs : List Value) : List (Value × Value) :=
  xs.zipIdx.map fun x => (.int x.2, x.1)

/-- The walk through a collection. -/
def start (v : Value) : Action Walk := do
  match v with
  | .none => return .fixed []
  | .view p d _ => return .dict (← DictWalk.start d (some p))
  | v =>
    match ← Action.view v with
    | .list _ => return .list v 0
    | .dict _ => return .dict (← DictWalk.start v none)
    | .range a b c => return .range a c (Value.rangeLength a b c) 0
    | w => return .fixed (numbered (← Value.items w))

/-- The next pair and the rest of the walk. -/
def next : Walk → Action (Option ((Value × Value) × Walk))
  | .fixed [] => return none
  | .fixed (p :: ps) => return some (p, .fixed ps)
  | .range a c n i =>
    if i < n then return some ((.int i, .int (a + i * c)), .range a c n (i + 1)) else return none
  | .list l i => do
    match ← Action.view l with
    | .list xs =>
      match xs[i]? with
      | some x => return some ((.int i, x), .list l (i + 1))
      | none => return none
    | _ => return none
  | .dict w => do
    match ← w.next with
    | some (p, w) => return some (p, .dict w)
    | none => return none

/-- The pairs of a collection that nothing changes meanwhile: the entries of a dictionary, the
numbered items of any other, and none of the empty value. -/
def pairs (v : Value) : Action (List (Value × Value)) := do
  match v with
  | .none => return []
  | v =>
    match ← Action.view v with
    | .dict es => return es
    | w => return numbered (← Value.items w)

end Walk
end Trellis
