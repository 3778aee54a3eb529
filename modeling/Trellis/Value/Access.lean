import Trellis.Value.Heap
import Trellis.Value.Order

/-!
# Value — Access

What can be read off a value: an item by its index, the length, the items in order, an attribute.
Indices below zero count from the end.  An attribute of a number or a range is a value, most
attributes of texts and containers are methods; a name after a dictionary is looked for among its
keys first.  A `Traced` value carries its origin along, which the methods of a text are known by.

The methods are a selection: `textMethods`, `listMethods` and `dictMethods` name all there are.  A
name beyond them, such as `rstrip` after a text or `copy` after a dictionary, counts as an attribute
that is missing.
-/

namespace Trellis

namespace Value

/-- The greatest number that can be an index. -/
def indexLimit : Nat := 2 ^ 63 - 1

/-- A number is too large for an index. -/
def exceedsIndex (n : Int) : Bool :=
  indexLimit < n || n < -(indexLimit + 1)

/-- The place that an index names in a sequence; indices below zero count from the end. -/
def place? (n : Int) (length : Nat) : Option Nat :=
  let m := if n < 0 then n + length else n
  if 0 ≤ m && m < length then some m.toNat else Option.none

/-- The place that an index names in a sequence of the kind `name`. -/
def placeIn (name : String) (n : Int) (length : Nat) : Action Nat :=
  if exceedsIndex n then Action.fail .indexTooLarge
  else
    match place? n length with
    | some m => pure m
    | Option.none => Action.fail (.outOfRange name)

/-- The item of a sequence of the kind `name` at an index. -/
def itemAt (name : String) (xs : List Value) (i : Value) : Action Value :=
  match i.asInt? with
  | some n => do return xs.getD (← placeIn name n xs.length) none
  | Option.none => Action.fail (.subscript name i.typeName)

/-- The text of a single character. -/
def ofChar (c : Char) : Value :=
  .text (String.ofList [c])

/-- The character of a text at an index. -/
def characterAt (s : String) (i : Value) : Action Value :=
  match i.asInt? with
  | some n => do
    let cs := s.toList
    return .text (String.ofList ((cs.drop (← placeIn "string" n cs.length)).take 1))
  | Option.none => Action.fail (.textSubscript i.typeName)

/-- The value of a key. -/
def entryAt (es : List (Value × Value)) (k : Value) : Action Value := do
  match lookup? (← Action.key k) es with
  | some v => return v
  | Option.none => Action.fail (.noKey (← Action.shown k))

/-- The item of a range at an index. -/
def rangeAt (start stop step : Int) (i : Value) : Action Value :=
  match i.asInt? with
  | some n =>
    match place? n (rangeLength start stop step) with
    | some m => pure (.int (start + m * step))
    | Option.none => Action.fail (.outOfRange "range object")
  | Option.none => Action.fail (.subscript "range" i.typeName)

/-- The type that a value is or gives arguments to. -/
def typeOf? : Value → Option Function
  | .function f | .generic f _ _ => if functionTypeName f = "type" then some f else Option.none
  | _ => Option.none

/-- The types of containers with the types of what they contain. -/
def genericAt? (v i : Value) : Option Value :=
  let arguments := match i with
    | .tuple xs => xs
    | i => [i]
  match v with
  | .function .list => some (.generic .list arguments false)
  | .function .dict => some (.generic .dict arguments false)
  | _ => Option.none

/-- The part of `v` at `i`. -/
def index (v i : Value) : Action Value := do
  match ← Action.view v with
  | .list xs => itemAt "list" xs i
  | .tuple xs => itemAt "tuple" xs i
  | .text s => characterAt s i
  | .dict es => entryAt es i
  | .range a b c => rangeAt a b c i
  | .generic f xs u => Action.fail (.notGeneric (← Action.shown (.generic f xs u)))
  | w =>
    match genericAt? w i, typeOf? w with
    | some a, _ => return a
    | Option.none, some f => Action.fail (.typeNotSubscriptable (functionName f))
    | Option.none, Option.none => Action.fail (.notSubscriptable w.typeName)

/-- The place in a container or an object of its part at `i`. -/
def placeAt? (v i : Value) : Option Nat :=
  match v with
  | .list xs | .tuple xs => i.asInt?.bind (place? · xs.length)
  | .dict es => es.findIdx? fun e => sameItem i e.1
  | .object fs => fs.findIdx? fun f => sameItem i (.text f.1)
  | _ => Option.none

/-- The origin of the part at `i` of a value, whose own origin is given if it is known. -/
def originAt? (h : Heap) (whole : Option Origin) (v i : Value) : Option Origin := do
  let place ← placeAt? (h.view v) i
  match v with
  | .ref _ a => return .item a place
  | _ => return .part (← whole) place

/-- The number of bytes that an item takes in a list. -/
def itemSize : Nat := 8

/-- There is room for as many items. -/
def hasRoom (count : Nat) : Bool :=
  count * itemSize ≤ roomLimit

/-- The items of a range. -/
def rangeItems (start stop step : Int) : Action (List Value) :=
  let n := rangeLength start stop step
  if exceedsIndex n then Action.fail .sizeTooLarge
  else if hasRoom n then
    return (List.range n).map fun k : Nat => .int (start + k * step)
  else Action.fail .noRoom

/-- The entries of a dictionary that a value is or shows. -/
def entriesOf (v : Value) : Action (List (Value × Value)) := do
  match ← Action.view v with
  | .dict es => return es
  | _ => return []

/-- The items of a value in order, if it has any; those of a dictionary are its keys. -/
def items? (v : Value) : Action (Option (List Value)) := do
  match ← Action.view v with
  | .list xs | .tuple xs => return some xs
  | .text s => return some (s.toList.map ofChar)
  | .dict es => return some (es.map (·.1))
  | .range a b c => return some (← rangeItems a b c)
  | .set xs _ => return some xs
  | .view p d _ => return some (viewItems p (← entriesOf d))
  | .generic f xs _ => return some [.generic f xs true]
  | _ => return Option.none

/-- The items of a value in order. -/
def items (v : Value) : Action (List Value) := do
  match ← items? v with
  | some xs => return xs
  | Option.none => Action.fail (.notIterable v.typeName)

/-- The number of items of a value. -/
def length (v : Value) : Action Nat := do
  match ← Action.view v with
  | .text s => return s.length
  | .list xs | .tuple xs | .set xs _ => return xs.length
  | .dict es => return es.length
  | .view _ d _ => return (← entriesOf d).length
  | .range a b c =>
    let n := rangeLength a b c
    if exceedsIndex n then Action.fail .sizeTooLarge else return n
  | w => Action.fail (.noLength w.typeName)

/-- The methods of texts. -/
def textMethods : List String :=
  ["upper", "lower", "strip", "replace", "split", "join", "startswith", "endswith", "find", "index",
    "count", "title", "capitalize", "isdigit"]

/-- The methods of lists. -/
def listMethods : List String :=
  ["index", "count", "append", "pop", "copy", "sort", "reverse", "extend", "insert", "remove",
    "clear"]

/-- The methods of dictionaries. -/
def dictMethods : List String :=
  ["get", "keys", "values", "items", "update", "pop", "setdefault"]

/-- The attribute of a whole number. -/
def wholeAttribute? (n : Int) (name : String) : Option Value :=
  if name = "real" then some (.int n)
  else if name = "imag" then some (.int 0)
  else Option.none

/-- The attribute of a range. -/
def rangeAttribute? (start stop step : Int) (name : String) : Option Value :=
  if name = "start" then some (.int start)
  else if name = "stop" then some (.int stop)
  else if name = "step" then some (.int step)
  else Option.none

/-- A method of `v`, which has the origin `o`, if it is one of `names`. -/
def methodOf? (names : List String) (v : Value) (o : Origin) (name : String) : Option Value :=
  if names.contains name then some (.method v name o) else Option.none

/-- The attribute of a counter that has been called `count` times. -/
def counterAttribute? (v : Value) (count : Int) (o : Origin) (name : String) : Option Value :=
  if name = "value" then some (.int count) else methodOf? ["step"] v o name

/-- The attribute `name` of a value on a heap, which has the origin `o`. -/
def attributeOf? (h : Heap) (v : Value) (o : Origin) (name : String) : Option Value :=
  match v with
  | .bool b => wholeAttribute? (if b then 1 else 0) name
  | .int n => wholeAttribute? n name
  | .float x =>
    if name = "real" then some (.float x)
    else if name = "imag" then some (.float 0)
    else Option.none
  | .nan m =>
    if name = "real" then some (.nan m)
    else if name = "imag" then some (.float 0)
    else Option.none
  | .text s => methodOf? textMethods (.text s) o name
  | .range a b c => rangeAttribute? a b c name
  | .object fs => fs.lookup name
  | .list xs => methodOf? listMethods (.list xs) o name
  | .dict es => methodOf? dictMethods (.dict es) o name
  | .ref .list a => methodOf? listMethods (.ref .list a) o name
  | .ref .dict a => methodOf? dictMethods (.ref .dict a) o name
  | .ref .counter a =>
    match h.cells[a]? with
    | some (.counter _ count) => counterAttribute? (.ref .counter a) count o name
    | _ => Option.none
  | _ => Option.none

/-- The attributes of the values of a type. -/
def typeAttributes : Function → List String
  | .list => listMethods
  | .dict => dictMethods
  | .toInt | .toFloat => ["real", "imag"]
  | .range => ["start", "stop", "step"]
  | _ => []

/-- The attribute `name` of a type. -/
def typeAttribute (f : Function) (name : String) : Action Value :=
  if (typeAttributes f).contains name then pure (.descriptor f name)
  else Action.fail (.noTypeAttribute (functionName f) name)

/-- A given origin, or the one of a value that was made just now. -/
def knownOrigin : Option Origin → Action Origin
  | some o => pure o
  | Option.none => do return .made (← Action.freshMark)

/-- The attribute `name` of `v`, whose origin is given if it is known. -/
def attributeOf (v : Value) (origin : Option Origin) (name : String) : Action Value := do
  let o ← knownOrigin origin
  match attributeOf? (← get) v o name with
  | some w => return w
  | Option.none =>
    match typeOf? v with
    | some f => typeAttribute f name
    | Option.none => Action.fail (.noAttribute v.typeName name)

/-- What a name after a value stands for: the key of a dictionary if it is one, an attribute
otherwise. -/
def member (v : Value) (origin : Option Origin) (name : String) : Action Value := do
  match ← Action.view v with
  | .dict es =>
    match lookup? (.text name) es with
    | some w => return w
    | Option.none => attributeOf v origin name
  | _ => attributeOf v origin name

end Value

/-- A value with its origin, as far as it is known. -/
structure Traced where
  value : Value
  origin : Option Origin

namespace Traced

/-- A value of unknown origin. -/
def fresh (v : Value) : Traced := ⟨v, none⟩

/-- The part of a value at `i`, which is `w`. -/
def part (t : Traced) (i w : Value) : Action Traced := do
  return ⟨w, Value.originAt? (← get) t.origin t.value i⟩

/-- The part of a value at `i`. -/
def index (t : Traced) (i : Value) : Action Traced := do
  t.part i (← t.value.index i)

/-- What a name after a value stands for. -/
def member (t : Traced) (name : String) : Action Traced := do
  t.part (.text name) (← t.value.member t.origin name)

end Traced
end Trellis
