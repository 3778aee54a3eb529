import Trellis.Value.Fault

/-!
# Value — Order

The order of values that hold their content.  Numbers compare exactly, texts by code points, lists
and tuples at the first place where their items differ, sets and views of keys and entries by
inclusion.  All other pairs of values have no order; that of two objects fails as that of their
attributes' dictionaries does.
-/

namespace Trellis

/-- The four comparisons. -/
inductive Comparison where
  | lt
  | le
  | gt
  | ge
  deriving DecidableEq, Repr

namespace Comparison

/-- How a comparison is written. -/
def symbol : Comparison → String
  | lt => "<"
  | le => "<="
  | gt => ">"
  | ge => ">="

/-- The comparison holds of two things in this order. -/
def holds : Comparison → Ordering → Bool
  | lt, o => o == .lt
  | le, o => o != .gt
  | gt, o => o == .gt
  | ge, o => o != .lt

end Comparison

namespace Value

open Trellis.Decimal (shape BinaryValue)

/-- The order of two lists of characters, by code points. -/
def compareChars : List Char → List Char → Ordering
  | [], [] => .eq
  | [], _ => .lt
  | _, [] => .gt
  | a :: s, b :: t =>
    if a = b then compareChars s t else compare (Text.codePoint a) (Text.codePoint b)

/-- The order of a whole number and a floating-point number that is one. -/
def compareIntFloat (n : Int) (x : Float) : Ordering :=
  match shape x with
  | .finite d => d.compareInt n
  | .infinite negative => if negative then .gt else .lt
  | .nan => .eq

/-- The order of two floating-point numbers that are numbers. -/
def compareFloat (x y : Float) : Ordering :=
  if x < y then .lt else if y < x then .gt else .eq

/-- The order of two numbers; none if one of them is not a number, no answer if one of the values
is no number at all. -/
def compareNumbers? : Value → Value → Option (Option Ordering)
  | .nan _, w => if w.asInt?.isSome || w.asFloat?.isSome then some Option.none else Option.none
  | v, .nan _ => if v.asInt?.isSome || v.asFloat?.isSome then some Option.none else Option.none
  | .float x, .float y => some (some (compareFloat x y))
  | .float x, w => w.asInt?.map fun n => some (compareIntFloat n x).swap
  | v, .float y => v.asInt?.map fun n => some (compareIntFloat n y)
  | v, w => v.asInt?.bind fun m => w.asInt?.map fun n => some (compare m n)

/-- The entries of a view, as items. -/
def viewItems : Part → List (Value × Value) → List Value
  | .keys, es => es.map (·.1)
  | .values, es => es.map (·.2)
  | .items, es => es.map fun e => .tuple [e.1, e.2]

/-- The inclusion of sets of items. -/
def includes (c : Comparison) (xs ys : List Value) : Bool :=
  let sub (as bs : List Value) : Bool := as.all fun a => bs.any (sameItem a)
  match c with
  | .lt => xs.length < ys.length && sub xs ys
  | .le => xs.length ≤ ys.length && sub xs ys
  | .gt => ys.length < xs.length && sub ys xs
  | .ge => ys.length ≤ xs.length && sub ys xs

mutual

/-- A comparison of two values. -/
def holds (c : Comparison) : Value → Value → Except Cause Bool
  | .text s, .text t => .ok (c.holds (compareChars s.toList t.toList))
  | .list xs, .list ys => holdsItems c xs ys
  | .tuple xs, .tuple ys => holdsItems c xs ys
  | .object _, .object _ => .error (.order c.symbol (typeName (.dict [])) (typeName (.dict [])))
  | v, w =>
    match compareNumbers? v w, members? v, members? w with
    | some (some o), _, _ => .ok (c.holds o)
    | some Option.none, _, _ => .ok false
    | Option.none, some xs, some ys => .ok (includes c xs ys)
    | Option.none, _, _ => .error (.order c.symbol (typeName v) (typeName w))
termination_by structural v => v

/-- A comparison of two lists: of their first items that differ, else of their lengths. -/
def holdsItems (c : Comparison) : List Value → List Value → Except Cause Bool
  | [], [] => .ok (c.holds .eq)
  | [], _ :: _ => .ok (c.holds .lt)
  | _ :: _, [] => .ok (c.holds .gt)
  | x :: xs, y :: ys => if sameItem x y then holdsItems c xs ys else holds c x y
termination_by structural xs => xs

end

end Value

namespace Sorting

variable {α : Type} (lt : α → α → Except Cause Bool)

/-- The items that go on a run, which is given last item first: a run descends or it does not. -/
def takeRun (descends : Bool) (last : α) (run : List α) : List α → Except Cause (List α × List α)
  | [] => .ok (last :: run, [])
  | y :: ys => do
    if (← lt y last) == descends then takeRun descends y (last :: run) ys
    else return (last :: run, y :: ys)

/-- The place of an item among sorted ones, behind those that are not greater: halving the places
from `low` up to `high`. -/
def place (x : α) (sorted : List α) : (fuel low high : Nat) → Except Cause Nat
  | 0, low, _ => .ok low
  | fuel + 1, low, high => do
    if high ≤ low then return low
    let middle := low + (high - low) / 2
    if ← lt x (sorted.getD middle x) then place x sorted fuel low middle
    else place x sorted fuel (middle + 1) high

/-- The items put among the sorted ones, one by one; a failure leaves the rest where it is. -/
def sortInto (sorted : List α) : List α → List α × Option Cause
  | [] => (sorted, none)
  | x :: xs =>
    match place lt x sorted sorted.length 0 sorted.length with
    | .ok n => sortInto (sorted.take n ++ x :: sorted.drop n) xs
    | .error c => (sorted ++ x :: xs, some c)

/-- The items in order, equal ones in the order they had; or the state in which a comparison failed
and the failure. -/
def sort : List α → List α × Option Cause
  | x :: y :: xs =>
    match lt y x with
    | .error c => (x :: y :: xs, some c)
    | .ok descends =>
      match takeRun lt descends y [x] xs with
      | .error c => (x :: y :: xs, some c)
      | .ok (run, rest) => sortInto lt (if descends then run else run.reverse) rest
  | xs => (xs, none)

end Sorting
end Trellis
