import Trellis.Value.Held

/-!
# Value — Method — Dict

The methods of dictionaries, and the entries that a value stands for where a dictionary is built of
it.  A dictionary is a cell of a heap; entries that were written before a failure stay.
-/

namespace Trellis.Value.DictMethod

/-- The storage of the dictionary at an address is changed. -/
def change (a : Nat) (f : Slots → Slots) : Action Unit := do
  Action.assign a (.dict (f (← Action.slots (.ref .dict a))))

/-- The value of a key, or a default. -/
def get (a : Nat) (args : List Value) : Action Value := do
  expectBetween "get" 1 2 args
  let k ← Action.key (args.getD 0 .none)
  return (lookup? k (← entriesOf (.ref .dict a))).getD (args.getD 1 .none)

/-- The value of a key, or a default, which becomes the value. -/
def setdefault (a : Nat) (args : List Value) : Action Value := do
  expectBetween "setdefault" 1 2 args
  let k ← Action.key (args.getD 0 .none)
  let es ← entriesOf (.ref .dict a)
  match lookup? k es with
  | some v => return v
  | Option.none => do
    let v := args.getD 1 .none
    change a (·.put k v)
    return v

/-- The value of a key, or a default; the key is taken out. -/
def pop (a : Nat) (args : List Value) : Action Value := do
  expectBetween "pop" 1 2 args
  let k := args.getD 0 .none
  let es ← entriesOf (.ref .dict a)
  let found ← if es.isEmpty then pure Option.none else do pure (lookup? (← Action.key k) es)
  match found, args[1]? with
  | some v, _ => do
    change a (·.erase k)
    return v
  | Option.none, some d => return d
  | Option.none, Option.none => Action.fail (.noKey (← Action.shown k))

/-- A part of the dictionary, to look at. -/
def part (p : Part) (name : String) (a : Nat) (args : List Value) : Action Value := do
  takeNone ("dict." ++ name) args
  return .view p (.ref .dict a) (← Action.freshMark)

/-- The pair that the item in position `i` stands for. -/
def pairOf (i : Nat) (v : Value) : Action (Value × Value) := do
  match ← items? v with
  | Option.none => Action.fail (.updateElement i)
  | some [k, w] => return (← Action.key k, w)
  | some xs => Action.fail (.updateLength i xs.length)

/-- The pairs, from position `i` on, written one by one. -/
def writePairs (a : Nat) (i : Nat) : List Value → Action Unit
  | [] => pure ()
  | v :: vs => do
    let (k, w) ← pairOf i v
    change a (·.put k w)
    writePairs a (i + 1) vs

/-- Entries put into a dictionary. -/
def merge (es fs : List (Value × Value)) : List (Value × Value) :=
  fs.foldl (fun es f => insert f.1 f.2 es) es

/-- The value is the dictionary at an address. -/
def isAt (a : Nat) : Value → Bool
  | .ref .dict b => a == b
  | _ => false

/-- The entries of a dictionary, or the pairs of a collection, written to the dictionary at an
address.  What has keys counts as a dictionary: the type of dictionaries, which cannot tell them,
and an object, which can tell them but has no values for them. -/
def updateFrom (a : Nat) (v : Value) : Action Unit := do
  match ← Action.view v, typeOf? v with
  | .object fs, _ =>
    match fs.lookup "keys" with
    | some held => do
      if !(← toldKeys v held).isEmpty then Action.fail (.notSubscriptable v.typeName)
    | Option.none => Action.fail (.notIterable v.typeName)
  | .dict _, _ => do
    let s ← Action.slots v
    if isAt a v then pure () else change a (·.absorb s)
  | .range b c d, _ =>
    if rangeLength b c d = 0 then pure () else Action.fail (.updateElement 0)
  | _, some .dict => Action.fail (.unboundMethod "dict" "keys")
  | w, _ => do writePairs a 0 (← items w)

/-- The entries of a dictionary, or the pairs of a collection. -/
def update (a : Nat) (args : List Value) : Action Value := do
  expectBetween "update" 0 1 args
  match args with
  | v :: _ => updateFrom a v
  | [] => pure ()
  return .none

/-- A new dictionary of the entries of a dictionary, or the pairs of a collection. -/
def construct (args : List Value) : Action Value := do
  expectBetween "dict" 0 1 args
  let h ← getThe Heap
  let d ← Action.newDict []
  match args with
  | v :: _ => updateFrom h.cells.size v
  | [] => pure ()
  return d

/-- The result of a method of the dictionary at an address. -/
def call (a : Nat) (name : String) (args : List Value) : Action Value :=
  match name with
  | "get" => get a args
  | "setdefault" => setdefault a args
  | "pop" => pop a args
  | "keys" => part .keys "keys" a args
  | "values" => part .values "values" a args
  | "items" => part .items "items" a args
  | "update" => update a args
  | _ => Action.fail (.noAttribute "dict" name)

end Trellis.Value.DictMethod
