import Trellis.Value.Fault
import Trellis.Value.Slots

/-!
# Value — Heap

Containers that several values share.  A heap maps addresses to cells; a `ref` value points to one.

* `Heap.view` reads one level: a reference to a container becomes the container, whose items may
  again be references.
* `Heap.deep` reads all levels.  A part that stands inside itself is cut off there.
* `Heap.serial` reads all levels as far as they are serialized item by item; what is serialized by
  its form is read as a value of its own.
* `Action.store` allocates the containers of a value, so that nothing shares them.

An `Action` computes on a heap and may fail; what it has done to the heap before stays.
-/

namespace Trellis

/-- What an address holds. -/
inductive Cell where
  | list (items : List Value)
  | dict (slots : Slots)
  /-- The bound up to which calls succeed, and the number of calls so far. -/
  | counter (bound : Value) (count : Int)
  /-- The items that have not been returned yet. -/
  | supply (items : List Value)

/-- The containers in use, and the next mark of a value with an identity. -/
structure Heap where
  cells : Array Cell
  mark : Nat

namespace Heap

/-- Nothing allocated.  Mark zero is the one of the constant that serialized texts name. -/
def empty : Heap := ⟨#[], 1⟩

/-- The content of a container at an address. -/
def content (h : Heap) (a : Nat) : Option Value :=
  match h.cells[a]? with
  | some (.list xs) => some (.list xs)
  | some (.dict s) => some (.dict s.live)
  | _ => none

/-- A value with one level of content. -/
def view (h : Heap) : Value → Value
  | .ref k a => (h.content a).getD (.ref k a)
  | v => v

/-- The storage of a dictionary. -/
def slots (h : Heap) : Value → Slots
  | .ref _ a =>
    match h.cells[a]? with
    | some (.dict s) => s
    | _ => Slots.empty
  | .dict es => Slots.ofList es
  | _ => Slots.empty

/-- The heap with a cell changed. -/
def set (h : Heap) (a : Nat) (c : Cell) : Heap :=
  { h with cells := h.cells.setIfInBounds a c }

end Heap

namespace Value

/-- How the parts of a value are replaced on the way to its content: `stop` gives what takes the
place of a part without a look inside, `fill` the content of a reference.  Both are told what
encloses the part; `fill` is also told whether the reference itself counts as enclosing. -/
structure Expansion where
  stop : List Value → Value → Option Value
  fill : Bool → List Value → Kind → Nat → Value

mutual

/-- A value inside others with its parts replaced. -/
def expand (x : Expansion) (outer : List Value) : Value → Value
  | .ref k a => x.fill true outer k a
  | .list xs => .list (expandItems x outer xs)
  | .tuple xs => (x.stop outer (.tuple xs)).getD (.tuple (expandItems x (.tuple xs :: outer) xs))
  | .dict es => .dict (expandEntries x outer es)
  | .object fs =>
    (x.stop outer (.object fs)).getD (.object (expandFields x (.object fs :: outer) fs))
  | .set xs n => .set (expandItems x outer xs) n
  | .generic f xs u => .generic f (expandItems x outer xs) u
  | .view p (.ref k a) m =>
    (x.stop outer (.view p (.ref k a) m)).getD
      (.view p (x.fill false (.view p (.ref k a) m :: outer) k a) m)
  | v => v
termination_by structural v => v

/-- Items with their parts replaced. -/
def expandItems (x : Expansion) (outer : List Value) : List Value → List Value
  | [] => []
  | v :: vs => expand x outer v :: expandItems x outer vs
termination_by structural vs => vs

/-- Entries with their parts replaced. -/
def expandEntries (x : Expansion) (outer : List Value) : List (Value × Value) → List (Value × Value)
  | [] => []
  | e :: es => expandEntry x outer e :: expandEntries x outer es
termination_by structural es => es

/-- An entry with its parts replaced. -/
def expandEntry (x : Expansion) (outer : List Value) : Value × Value → Value × Value
  | (k, v) => (expand x outer k, expand x outer v)
termination_by structural e => e

/-- Attributes with their parts replaced. -/
def expandFields (x : Expansion) (outer : List Value) :
    List (String × Value) → List (String × Value)
  | [] => []
  | e :: es => expandField x outer e :: expandFields x outer es
termination_by structural es => es

/-- An attribute with its parts replaced. -/
def expandField (x : Expansion) (outer : List Value) : String × Value → String × Value
  | (k, v) => (k, expand x outer v)
termination_by structural e => e

end

/-- Two parts of a value, one inside the other, are the same object. -/
def sameObject : Value → Value → Bool
  | .ref k a, .ref k' a' => k == k' && a == a'
  | .tuple xs, .tuple ys => eqItems xs ys
  | .object fs, .object gs => fs.length == gs.length && fieldsIn fs gs
  | .view _ _ m, .view _ _ n => m == n
  | _, _ => false

/-- The form of a part that stands inside itself. -/
def cutForm : Value → String
  | .tuple _ => "(...)"
  | .object _ => "namespace(...)"
  | _ => "..."

/-- The part of a value that stands inside itself is cut off. -/
def cutInside (outer : List Value) (v : Value) : Option Value :=
  if outer.any (sameObject v) then some (.cut (cutForm v)) else Option.none

end Value

namespace Heap

/-- The content of a reference inside others, read by `read` unless it stands inside itself. -/
def fill (h : Heap) (read : List Value → Value → Value) (encloses : Bool) (outer : List Value)
    (k : Kind) (a : Nat) : Value :=
  if encloses && outer.any (Value.sameObject (.ref k a)) then .ref k a
  else
    match h.content a with
    | some c => read (if encloses then .ref k a :: outer else outer) c
    | none => .ref k a

/-- A value inside others with all its content, at most `depth` references deep. -/
def deepUnder (h : Heap) : (depth : Nat) → (outer : List Value) → Value → Value
  | 0, _, v => v
  | depth + 1, outer, v => v.expand ⟨Value.cutInside, h.fill (h.deepUnder depth)⟩ outer

/-- A bound on the number of references on the way to a part: each adds a container or a view. -/
def depthLimit (h : Heap) : Nat :=
  h.cells.size + h.mark + 1

/-- A value with all its content. -/
def deep (h : Heap) (v : Value) : Value :=
  h.deepUnder h.depthLimit [] v

/-- What takes the place of a part where a value is serialized item by item. -/
def serialStop (h : Heap) (outer : List Value) : Value → Option Value
  | .object fs => some (h.deep (.object fs))
  | .view p d m => some (h.deep (.view p d m))
  | v => Value.cutInside outer v

/-- A value inside others as far as it is serialized item by item, at most `depth` references
deep. -/
def serialUnder (h : Heap) : (depth : Nat) → (outer : List Value) → Value → Value
  | 0, _, v => v
  | depth + 1, outer, v => v.expand ⟨h.serialStop, h.fill (h.serialUnder depth)⟩ outer

/-- A value with all its content, as it is serialized. -/
def serial (h : Heap) (v : Value) : Value :=
  h.serialUnder h.depthLimit [] v

end Heap

/-- Computations on a heap that may fail. -/
abbrev Action := ExceptT Fault (StateM Heap)

namespace Action

/-- The failure of an operation. -/
def fail {α : Type} (c : Cause) : Action α :=
  throw (.basic c)

/-- The outcome of an operation. -/
def ofExcept {α : Type} : Except Cause α → Action α
  | .ok a => pure a
  | .error c => fail c

/-- The outcome of an action that starts with nothing allocated. -/
def alone {α : Type} (x : Action α) : Except Fault α :=
  (x.run.run Heap.empty).1

/-- One level of a value. -/
def view (v : Value) : Action Value :=
  return (← get).view v

/-- All levels of a value. -/
def deep (v : Value) : Action Value :=
  return (← get).deep v

/-- The storage of a dictionary. -/
def slots (v : Value) : Action Slots :=
  return (← get).slots v

/-- All levels of a value, as it is serialized. -/
def serial (v : Value) : Action Value :=
  return (← get).serial v

/-- A new cell. -/
def alloc (k : Kind) (c : Cell) : Action Value := do
  let h ← get
  set { h with cells := h.cells.push c }
  return .ref k h.cells.size

/-- A new list. -/
def newList (xs : List Value) : Action Value :=
  alloc .list (.list xs)

/-- A new dictionary. -/
def newDict (es : List (Value × Value)) : Action Value :=
  alloc .dict (.dict (Slots.ofList es))

/-- A mark that no value has yet. -/
def freshMark : Action Nat := do
  let h ← get
  set { h with mark := h.mark + 1 }
  return h.mark

/-- A floating-point number; one that is not a number gets a new mark. -/
def float (x : Float) : Action Value := do
  if x.isNaN then return .nan (← freshMark) else return .float x

/-- A change of a cell. -/
def assign (a : Nat) (c : Cell) : Action Unit :=
  modify (·.set a c)

mutual

/-- The value with its containers allocated. -/
def store : Value → Action Value
  | .list xs => do newList (← storeItems xs)
  | .dict es => do newDict (← storeEntries es)
  | .tuple xs => do return .tuple (← storeItems xs)
  | .object fs => do return .object (← storeFields fs)
  | .view p d m => do return .view p (← store d) m
  | v => pure v
termination_by structural v => v

/-- The items with their containers allocated. -/
def storeItems : List Value → Action (List Value)
  | [] => pure []
  | x :: xs => do
    let y ← store x
    return y :: (← storeItems xs)
termination_by structural xs => xs

/-- The entries with their containers allocated. -/
def storeEntries : List (Value × Value) → Action (List (Value × Value))
  | [] => pure []
  | e :: es => do
    let f ← storeEntry e
    return f :: (← storeEntries es)
termination_by structural es => es

/-- The entry with its containers allocated; keys have none. -/
def storeEntry : Value × Value → Action (Value × Value)
  | (k, v) => do return (k, ← store v)
termination_by structural e => e

/-- The attributes with their containers allocated. -/
def storeFields : List (String × Value) → Action (List (String × Value))
  | [] => pure []
  | e :: es => do
    let f ← storeField e
    return f :: (← storeFields es)
termination_by structural es => es

/-- The attribute with its containers allocated. -/
def storeField : String × Value → Action (String × Value)
  | (k, v) => do return (k, ← store v)
termination_by structural e => e

end

/-- A value that has all its content, unless a whole number in it is too long to be written. -/
def writable (v : Value) : Action Value := do
  let v ← deep v
  if v.hasLongInt then fail .digitsWritten else return v

/-- The form of a value inside containers. -/
def shown (v : Value) : Action String :=
  return (← writable v).shown

/-- The form of a value on its own. -/
def plain (v : Value) : Action String :=
  return (← writable v).plain

/-- The form of a value inside markup. -/
def embedded (v : Value) : Action String :=
  return (← writable v).embedded

/-- The truth value of a value. -/
def truth (v : Value) : Action Bool := do
  let h ← get
  match v with
  | .view _ d _ =>
    match h.view d with
    | .dict es => return !es.isEmpty
    | _ => return true
  | v => return (h.view v).truth

/-- Every value has a truth value, which is told without a change. -/
theorem exists_run_truth (v : Value) (h : Heap) : ∃ b, (truth v).run.run h = (.ok b, h) := by
  cases v with
  | view _ d _ =>
    show ∃ b, ((match h.view d with
      | .dict es => pure !es.isEmpty
      | _ => pure true : Action Bool)).run.run h = (.ok b, h)
    split <;> exact ⟨_, rfl⟩
  | _ => exact ⟨_, rfl⟩

/-- A key, unless the value cannot be one. -/
def key (v : Value) : Action Value :=
  match v.unhashable? with
  | some t => fail (.unhashable t)
  | none => pure v

end Action
end Trellis
