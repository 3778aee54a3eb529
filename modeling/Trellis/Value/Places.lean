import Trellis.Value.Equality

/-!
# Value — Places

The order in which the items of a set are gone through: that of their places in a table.  Every item
has a number, which names the place where it is looked for first; where that one is taken, the
number leads to others.  The table is enlarged when more than three fifths of its places are taken,
and the items are placed anew then, in the order they had.

Equal values have equal numbers.  Texts and values with an identity have none that is known; a set
with such an item keeps the order in which its items came.
-/

namespace Trellis

namespace Value

/-- The modulus of the numbers of numbers, a prime. -/
def modulus : Nat := 2 ^ 61 - 1

/-- Numbers have 64 bits. -/
def wordSize : Nat := 2 ^ 64

/-- The number of a rational number whose magnitude has the residue `r`.  Minus one is left out. -/
def signedResidue (negative : Bool) (r : Nat) : Nat :=
  let n := if negative then (wordSize - r) % wordSize else r
  if n = wordSize - 1 then wordSize - 2 else n

/-- The number of a floating-point number, unless it is not a number. -/
def numberOfFloat? (x : Float) : Option Nat :=
  match Decimal.shape x with
  | .finite d =>
    let shift := (d.exponent.emod 61).toNat
    some (signedResidue d.negative (d.significand * 2 ^ shift % modulus))
  | .infinite negative => some (signedResidue negative 314159)
  | .nan => Option.none

/-- One step of the number of a tuple. -/
def mixNumber (acc lane : Nat) : Nat :=
  let n := (acc + lane * 14029467366897019727) % wordSize
  let rotated := (n <<< 31 ||| n >>> 33) % wordSize
  rotated * 11400714785074694791 % wordSize

/-- The start of the number of a tuple. -/
def tupleSeed : Nat := 2870177450012600261

/-- The number of a tuple whose items have given numbers. -/
def tupleNumber (ns : List Nat) : Nat :=
  let acc := ns.foldl mixNumber tupleSeed
  let n := (acc + (ns.length ^^^ (tupleSeed ^^^ 3527539))) % wordSize
  if n = wordSize - 1 then 1546275796 else n

mutual

/-- The number of a value, if it is known. -/
def number? : Value → Option Nat
  | .bool b => some (if b then 1 else 0)
  | .int n => some (signedResidue (n < 0) (n.natAbs % modulus))
  | .float x => numberOfFloat? x
  | .tuple xs => (numbers? xs).map tupleNumber
  | _ => Option.none
termination_by structural v => v

/-- The numbers of values, if all are known. -/
def numbers? : List Value → Option (List Nat)
  | [] => some []
  | x :: xs => (number? x).bind fun n => (numbers? xs).map (n :: ·)
termination_by structural xs => xs

end

end Value

/-- A table of items with their numbers. -/
abbrev Places := Array (Option (Nat × Value))

namespace Places

/-- The least size of a table. -/
def leastSize : Nat := 8

/-- The least size of a table with more than `n` places. -/
def sizeOver (n : Nat) : Nat :=
  max leastSize (2 ^ (Nat.log2 n + 1))

/-- The items in the order of their places. -/
def items (t : Places) : List (Nat × Value) :=
  t.toList.filterMap id

/-- The number of neighbours of a place that are tried after it. -/
def neighbours : Nat := 9

/-- The first free one of as many places from place `i` on. -/
def freeFrom? (t : Places) (i : Nat) : (count : Nat) → Option Nat
  | 0 => none
  | count + 1 => if (t.getD i none).isNone then some i else freeFrom? t (i + 1) count

/-- The first free place that a number leads to from place `i` on; `rest` is what is left of the
number. -/
def free? (t : Places) : (fuel i rest : Nat) → Option Nat
  | 0, _, _ => none
  | fuel + 1, i, rest =>
    match freeFrom? t i (if i + neighbours < t.size then neighbours + 1 else 1) with
    | some n => some n
    | none => free? t fuel ((i * 5 + 1 + rest / 32) % t.size) (rest / 32)

/-- The number of places that a number leads to before it has led to all. -/
def searchLimit (t : Places) : Nat := t.size + 13

/-- The table with one more item. -/
def insert (t : Places) (e : Nat × Value) : Places :=
  match free? t (searchLimit t) (e.1 % t.size) e.1 with
  | some i => t.setIfInBounds i (some e)
  | none => t

/-- A table of more than `n` places with items. -/
def build (n : Nat) (es : List (Nat × Value)) : Places :=
  es.foldl insert (Array.replicate (sizeOver n) none)

/-- Too many places of the table are taken. -/
def isCrowded (t : Places) (count : Nat) : Bool :=
  (t.size - 1) * 3 ≤ count * 5

/-- The number of items above which a table grows slowly. -/
def largeCount : Nat := 50000

/-- The number of places that are wanted for a number of items. -/
def wanted (count : Nat) : Nat :=
  if largeCount < count then count * 2 else count * 4

/-- The table with one more item, enlarged if it gets crowded; `count` items are in it before. -/
def add (t : Places) (count : Nat) (e : Nat × Value) : Places :=
  let t := t.insert e
  if t.isCrowded (count + 1) then build (wanted (count + 1)) t.items else t

/-- How items come into a table. -/
inductive Arrival where
  /-- One by one. -/
  | single
  /-- One by one, after room was made for their number. -/
  | counted
  /-- All at once, from a table of a given size, or from one with gaps if it is zero. -/
  | placed (size : Nat)

/-- A table that has room for a number of items. -/
def roomy (count : Nat) : Places :=
  let t := build 0 []
  if t.isCrowded count then build (count * 2) [] else t

/-- Items put into a table one by one. -/
def addAll (t : Places) (es : List (Nat × Value)) : Places :=
  es.zipIdx.foldl (fun t e => t.add e.2 e.1) t

/-- Items in the order of their places, and the size of their table, or zero if it has gaps. -/
structure Layout (α : Type) where
  items : List α
  size : Nat

/-- The items of a table. -/
def layout (t : Places) : Layout (Nat × Value) :=
  ⟨t.items, t.size⟩

/-- The items as they come into a new table.  Where the new table has the size of the old one, they
keep their places. -/
def arrived (es : List (Nat × Value)) : Arrival → Layout (Nat × Value)
  | .single => (addAll (build 0 []) es).layout
  | .counted => (addAll (roomy es.length) es).layout
  | .placed size =>
    let t := roomy es.length
    if t.size = size then ⟨es, size⟩ else (es.foldl insert t).layout

/-- The items that are kept.  If many are not, the others are placed anew. -/
def Layout.keep (l : Layout (Nat × Value)) (kept : Value → Bool) : Layout (Nat × Value) :=
  let es := l.items.filter fun e => kept e.2
  let lost := l.items.length - es.length
  if (l.size - 1) / 4 < lost then (build (wanted es.length) es).layout
  else ⟨es, if lost = 0 then l.size else 0⟩

/-- Items as a set goes through them that is made of them and loses those that are not kept. -/
def arranged (a : Arrival) (xs : List Value) (kept : Value → Bool) : Layout Value :=
  match Value.numbers? xs with
  | some ns =>
    let l := (arrived (ns.zip xs) a).keep kept
    ⟨l.items.map (·.2), l.size⟩
  | none => ⟨xs.filter kept, 0⟩

end Places
end Trellis
