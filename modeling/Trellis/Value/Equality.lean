import Trellis.Value.Basic

/-!
# Value — Equality

The three relations between values that hold their content.

* `looseEq` compares by content: truth values equal the numbers zero and one, numbers of both
  kinds compare exactly, dictionaries compare without regard to the order of their entries.
* `sameItem` is the relation by which containers compare their items and find a key.  It differs
  from `looseEq` in that a number that is not a number is the same item as itself.
* `strictEq` asks for equal types besides; all numbers but the truth values count as one type.

Views and methods are equal to themselves; besides, views of keys and of entries compare with one
another and with sets as sets do.
-/

namespace Trellis.Value

open Trellis.Decimal (Shape shape BinaryValue)

/-- A whole number equals a floating-point number exactly. -/
def intEqFloat (n : Int) (x : Float) : Bool :=
  match shape x with
  | .finite d => d.compareInt n == .eq
  | _ => false

/-- Two ranges have the same items. -/
def rangeEq (a b c a' b' c' : Int) : Bool :=
  let n := rangeLength a b c
  let n' := rangeLength a' b' c'
  n == n' && (n == 0 || (a == a' && (n == 1 || c == c')))

/-- Methods of texts belong to one text: it is known by its origin, or too short for two texts of
the same characters to differ. -/
def sameOrigin (o p : Origin) : Value → Bool
  | .text s => o == p || s.isEmpty || (s.length == 1 && s.toList.all fun c => c.toNat < 0x100)
  | _ => true

/-- The items of a value that is compared as a set. -/
def members? : Value → Option (List Value)
  | .set xs _ => some xs
  | .view .keys (.dict es) _ => some (es.map (·.1))
  | .view .items (.dict es) _ => some (es.map fun e => .tuple [e.1, e.2])
  | _ => Option.none

/-- Two views are the same object. -/
def isSameView : Value → Value → Bool
  | .view p _ m, .view q _ n => p == q && m == n
  | _, _ => false

mutual

/-- Equality by content; `marks` tells whether two numbers that are not numbers can be equal. -/
def eqWith (marks : Bool) : Value → Value → Bool
  | .none, .none => true
  | .bool a, .bool b => a == b
  | .bool a, .int n => (if a then 1 else 0) == n
  | .bool a, .float x => intEqFloat (if a then 1 else 0) x
  | .int m, .bool b => m == (if b then 1 else 0)
  | .int m, .int n => m == n
  | .int m, .float x => intEqFloat m x
  | .float x, .bool b => intEqFloat (if b then 1 else 0) x
  | .float x, .int n => intEqFloat n x
  | .float x, .float y => x == y
  | .nan m, .nan n => marks && m == n
  | .text s, .text t => s == t
  | .list xs, .list ys => eqItems xs ys
  | .tuple xs, .tuple ys => eqItems xs ys
  | .dict es, .dict fs => es.length == fs.length && entriesIn es fs
  | .range a b c, .range a' b' c' => rangeEq a b c a' b' c'
  | .object es, .object fs => es.length == fs.length && fieldsIn es fs
  | .function f, .function g => f == g
  | .generic f xs u, .generic g ys u' => f == g && u == u' && eqItems xs ys
  | .descriptor f n, .descriptor g m => f == g && n == m
  | .method r n o, .method r' n' o' => n == n' && eqWith true r r' && sameOrigin o o' r
  | .set xs _, w => (members? w).any fun ys => xs.length == ys.length && itemsIn xs ys
  | .view .keys (.dict es) m, w =>
    isSameView (.view .keys (.dict es) m) w ||
      (members? w).any fun ys => es.length == ys.length && keysIn es ys
  | .view .items (.dict es) m, w =>
    isSameView (.view .items (.dict es) m) w ||
      (members? w).any fun ys => es.length == ys.length && pairsIn es ys
  | .view p d m, w => isSameView (.view p d m) w
  | .ref k a, .ref k' a' => k == k' && a == a'
  | _, _ => false
termination_by structural v => v

/-- Two lists have the same items in the same places. -/
def eqItems : List Value → List Value → Bool
  | [], [] => true
  | x :: xs, y :: ys => eqWith true x y && eqItems xs ys
  | _, _ => false
termination_by structural xs => xs

/-- Every item of the first list is one of the second. -/
def itemsIn : List Value → List Value → Bool
  | [], _ => true
  | x :: xs, ys => (ys.any fun y => eqWith true x y) && itemsIn xs ys
termination_by structural xs => xs

/-- Every entry of the first dictionary is one of the second. -/
def entriesIn : List (Value × Value) → List (Value × Value) → Bool
  | [], _ => true
  | e :: es, fs => entryIn e fs && entriesIn es fs
termination_by structural es => es

/-- The entry's key is in the dictionary, with an equal value. -/
def entryIn : Value × Value → List (Value × Value) → Bool
  | (k, v), fs =>
    match fs.find? fun f => eqWith true k f.1 with
    | some f => eqWith true v f.2
    | Option.none => false
termination_by structural e => e

/-- Every key of the dictionary is one of the items. -/
def keysIn : List (Value × Value) → List Value → Bool
  | [], _ => true
  | e :: es, ys => keyIn e ys && keysIn es ys
termination_by structural es => es

/-- The entry's key is one of the items. -/
def keyIn : Value × Value → List Value → Bool
  | (k, _), ys => ys.any fun y => eqWith true k y
termination_by structural e => e

/-- Every entry of the dictionary is one of the items, as a pair. -/
def pairsIn : List (Value × Value) → List Value → Bool
  | [], _ => true
  | e :: es, ys => pairIn e ys && pairsIn es ys
termination_by structural es => es

/-- The entry is one of the items, as a pair. -/
def pairIn : Value × Value → List Value → Bool
  | (k, v), ys => ys.any fun
    | .tuple [a, b] => eqWith true k a && eqWith true v b
    | _ => false
termination_by structural e => e

/-- Every attribute of the first object is one of the second. -/
def fieldsIn : List (String × Value) → List (String × Value) → Bool
  | [], _ => true
  | e :: es, fs => fieldIn e fs && fieldsIn es fs
termination_by structural es => es

/-- The attribute is one of the object, with an equal value. -/
def fieldIn : String × Value → List (String × Value) → Bool
  | (k, v), fs =>
    match fs.find? fun f => k == f.1 with
    | some f => eqWith true v f.2
    | Option.none => false
termination_by structural e => e

end

/-- Equality by content. -/
def looseEq (v w : Value) : Bool :=
  eqWith false v w

/-- Equality of items of containers and of keys. -/
def sameItem (v w : Value) : Bool :=
  eqWith true v w

/-- The values that count as numbers in a strict comparison. -/
def isPlainNumber : Value → Bool
  | .int _ | .float _ | .nan _ => true
  | _ => false

/-- Equality of values of one type. -/
def strictEq (v w : Value) : Bool :=
  if isPlainNumber v && isPlainNumber w then looseEq v w
  else typeName v == typeName w && looseEq v w

/-- The value of a key in a dictionary. -/
def lookup? (key : Value) (entries : List (Value × Value)) : Option Value :=
  (entries.find? fun e => sameItem key e.1).map (·.2)

/-- The dictionary with a key set to a value: a key that is there keeps its place and its own
form, a new one goes to the end. -/
def insert (key value : Value) : List (Value × Value) → List (Value × Value)
  | [] => [(key, value)]
  | e :: es => if sameItem key e.1 then (e.1, value) :: es else e :: insert key value es

/-- The dictionary without a key. -/
def erase (key : Value) : List (Value × Value) → List (Value × Value)
  | [] => []
  | e :: es => if sameItem key e.1 then es else e :: erase key es

mutual

/-- The type of the first part of a value that cannot be a key. -/
def unhashable? : Value → Option String
  | .list xs => some (typeName (.list xs))
  | .dict es => some (typeName (.dict es))
  | .object fs => some (typeName (.object fs))
  | .set xs n => some (typeName (.set xs n))
  | .view .keys d m => some (typeName (.view .keys d m))
  | .view .items d m => some (typeName (.view .items d m))
  | .ref .list a => some (typeName (.ref .list a))
  | .ref .dict a => some (typeName (.ref .dict a))
  | .tuple xs | .generic _ xs _ => unhashableItem? xs
  | _ => Option.none
termination_by structural v => v

/-- The type of the first part of the items that cannot be a key. -/
def unhashableItem? : List Value → Option String
  | [] => Option.none
  | x :: xs =>
    match unhashable? x with
    | some t => some t
    | Option.none => unhashableItem? xs
termination_by structural xs => xs

end

end Trellis.Value
