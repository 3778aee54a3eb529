import Trellis.Value.Arguments

/-!
# Value — Method — List

The methods of lists.  A list is a cell of a heap; the methods read the cell and write it back.
-/

namespace Trellis.Value.ListMethod

/-- The items of the list at an address. -/
def itemsAt (a : Nat) : Action (List Value) := do
  match ← Action.view (.ref .list a) with
  | .list xs => return xs
  | _ => return []

/-- The list at an address gets new items; the method has no result. -/
def write (a : Nat) (xs : List Value) : Action Value := do
  Action.assign a (.list xs)
  return .none

/-- The position of the first item that is `v`. -/
def position? (xs : List Value) (v : Value) : Action (Option Nat) := do
  let h ← get
  let v := h.deep v
  return xs.findIdx? fun x => sameItem (h.deep x) v

/-- The position of the first item that is `v`, within bounds. -/
def index (a : Nat) (args : List Value) : Action Value := do
  expectBetween "index" 1 3 args
  let xs ← itemsAt a
  let v := args.getD 0 .none
  let start ← plainBoundOr 0 xs.length args[1]?
  let stop ← plainBoundOr xs.length xs.length args[2]?
  match ← position? ((xs.take stop).drop start) v with
  | some n => return .int (n + start : Nat)
  | Option.none => Action.fail (.noSuchItem (← Action.shown v))

/-- The number of items that are `v`. -/
def count (a : Nat) (args : List Value) : Action Value := do
  let v ← takeOne "list.count" args
  let h ← get
  let v := h.deep v
  return .int ((← itemsAt a).countP fun x => sameItem (h.deep x) v)

/-- An item at the end. -/
def append (a : Nat) (args : List Value) : Action Value := do
  let v ← takeOne "list.append" args
  write a ((← itemsAt a) ++ [v])

/-- The items of a collection at the end. -/
def extend (a : Nat) (args : List Value) : Action Value := do
  let vs ← items (← takeOne "list.extend" args)
  write a ((← itemsAt a) ++ vs)

/-- The item at an index, the last one if there is none, which is taken out. -/
def pop (a : Nat) (args : List Value) : Action Value := do
  expectBetween "pop" 0 1 args
  let n ←
    match args with
    | v :: _ => size v
    | [] => pure (-1)
  let xs ← itemsAt a
  if xs.isEmpty then Action.fail .emptyPop
  else
    match place? n xs.length with
    | some i => do
      Action.assign a (.list (xs.eraseIdx i))
      return xs.getD i .none
    | Option.none => Action.fail .popOutOfRange

/-- A new list of the same items. -/
def copy (a : Nat) (args : List Value) : Action Value := do
  takeNone "list.copy" args
  Action.newList (← itemsAt a)

/-- The items in order. -/
def sort (a : Nat) (args : List Value) : Action Value := do
  if 2 < args.length then wrongArity "sort" (.takesMost 2) args
  if !args.isEmpty then wrongArity "sort" .noPositional args
  let h ← get
  let xs := (← itemsAt a).map fun x => (x, h.deep x)
  let (ys, c) := Sorting.sort (fun x y => holds .lt x.2 y.2) xs
  Action.assign a (.list (ys.map (·.1)))
  match c with
  | some c => Action.fail c
  | Option.none => return .none

/-- The items in the opposite order. -/
def reverse (a : Nat) (args : List Value) : Action Value := do
  takeNone "list.reverse" args
  write a (← itemsAt a).reverse

/-- No items. -/
def clear (a : Nat) (args : List Value) : Action Value := do
  takeNone "list.clear" args
  write a []

/-- An item in front of the one at an index. -/
def insert (a : Nat) (args : List Value) : Action Value := do
  match args with
  | [i, v] => do
    let n ← size i
    let xs ← itemsAt a
    let k := bound n xs.length
    write a (xs.take k ++ v :: xs.drop k)
  | vs => wrongArity "insert" (.expected 2) vs

/-- Without the first item that is `v`, which there has to be. -/
def remove (a : Nat) (args : List Value) : Action Value := do
  let v ← takeOne "list.remove" args
  let xs ← itemsAt a
  match ← position? xs v with
  | some n => write a (xs.eraseIdx n)
  | Option.none => Action.fail .noItemToRemove

/-- The result of a method of the list at an address. -/
def call (a : Nat) (name : String) (args : List Value) : Action Value :=
  match name with
  | "index" => index a args
  | "count" => count a args
  | "append" => append a args
  | "extend" => extend a args
  | "pop" => pop a args
  | "copy" => copy a args
  | "sort" => sort a args
  | "reverse" => reverse a args
  | "clear" => clear a args
  | "insert" => insert a args
  | "remove" => remove a args
  | _ => Action.fail (.noAttribute "list" name)

end Trellis.Value.ListMethod
