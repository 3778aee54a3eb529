import Trellis.Value.Access
import Trellis.Value.Places

/-!
# Value — Membership

What is in a container, and what follows from it for sets and for views of keys and entries: their
differences, their equality and their inclusion.  A value that can be no key is in no set; to look
for it there is a failure.
-/

namespace Trellis.Membership

/-- A set, which is no key but can be looked for in a set. -/
def isSet : Value → Bool
  | .set _ _ => true
  | _ => false

/-- A view of keys or entries, which is subtracted and compared as a set is. -/
def isSetView : Value → Bool
  | .view .keys _ _ | .view .items _ _ => true
  | _ => false

/-- A set, or a view that is compared as one. -/
def isSetLike (v : Value) : Bool :=
  isSet v || isSetView v

/-- A whole number is one of the items of a range. -/
def inRange (n start stop step : Int) : Bool :=
  if 0 < step then start ≤ n && n < stop && (n - start) % step == 0
  else step < 0 && stop < n && n ≤ start && (start - n) % (-step) == 0

/-- The whole number that a number equals. -/
def asWhole? : Value → Option Int
  | .float x => Value.wholeFloat? x
  | v => v.asInt?

/-- A value occurs in a container. -/
def contains (v w : Value) : Action Bool := do
  let h ← get
  match h.view w with
  | .text t =>
    match v with
    | .text s => return Text.occursIn s.toList t.toList
    | v => Action.fail (.needle v.typeName)
  | .list xs | .tuple xs =>
    let v := h.deep v
    return xs.any fun x => Value.sameItem (h.deep x) v
  | .dict es => return (Value.lookup? (← Action.key v) es).isSome
  | .range a b c => return (asWhole? v).any fun n => inRange n a b c
  | .set xs _ => if isSet v then return false else return xs.any (Value.sameItem (← Action.key v))
  | .view part d _ =>
    match part, h.view d with
    | .keys, .dict es => return (Value.lookup? (← Action.key v) es).isSome
    | .values, .dict es =>
      let v := h.deep v
      return es.any fun e => Value.sameItem (h.deep e.2) v
    | .items, .dict es =>
      match v with
      | .tuple [k, x] =>
        match Value.lookup? (← Action.key k) es with
        | some y => return Value.sameItem (h.deep y) (h.deep x)
        | none => return false
      | _ => return false
    | _, _ => return false
  | .generic f xs _ => return Value.sameItem v (.generic f xs true)
  | _ => Action.fail (.container w.typeName)

/-! ### Differences -/

/-- Items that can be in a set, each once. -/
def distinct : List Value → Action (List Value)
  | [] => pure []
  | x :: xs => do
    let x ← Action.key x
    let ys ← distinct xs
    return x :: ys.filter fun y => !Value.sameItem x y

/-- What is known of a collection before its items are gone through: for a set, the table that they
stand in, for a dictionary and its keys, their number. -/
def arrivalOf : Value → Places.Arrival
  | .set _ size => .placed size
  | .dict _ | .view .keys _ _ => .counted
  | _ => .single

/-- Items that can be in a set. -/
def keys : List Value → Action (List Value)
  | [] => pure []
  | x :: xs => do
    let x ← Action.key x
    return x :: (← keys xs)

/-- The set that is made of items and loses those that are in `ys`. -/
def without (a : Places.Arrival) (xs ys : List Value) : Value :=
  let r := Places.arranged a xs fun x => !ys.any (Value.sameItem x)
  .set r.items r.size

/-- The set of the items of `v` that are no items of `w`. -/
def difference (v w : Value) : Action Value := do
  let xs ← distinct (← Value.items v)
  let ys ← keys (← Value.items w)
  return without (arrivalOf (← Action.view v)) xs ys

/-- The items of a set, in a table of a given size, that are not in another set. -/
def setDifference (xs : List Value) (size : Nat) (ys : List Value) : Value :=
  if ys.length < xs.length / 4 then without (.placed size) xs ys
  else without .single (xs.filter fun x => !ys.any (Value.sameItem x)) []

/-! ### Relations -/

/-- All values occur in a container; the first that does not ends the search. -/
def allIn (w : Value) : List Value → Action Bool
  | [] => pure true
  | x :: xs => do if ← contains x w then allIn w xs else return false

/-- Equality of sets and views: the items of a view are looked for in the other operand. -/
def equal (v w : Value) : Action Bool := do
  let xs ← Value.items v
  let ys ← Value.items w
  if xs.length ≠ ys.length then return false
  else if isSetView v then allIn w xs
  else allIn v ys

/-- Inclusion of sets and views. -/
def included (c : Comparison) (v w : Value) : Action Bool := do
  let xs ← Value.items v
  let ys ← Value.items w
  match c with
  | .lt => if xs.length < ys.length then allIn w xs else return false
  | .le => if xs.length ≤ ys.length then allIn w xs else return false
  | .gt => if ys.length < xs.length then allIn v ys else return false
  | .ge => if ys.length ≤ xs.length then allIn v ys else return false

end Trellis.Membership
