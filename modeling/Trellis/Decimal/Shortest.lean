import Trellis.Decimal.Binary

/-!
# Decimal — Shortest

The fewest decimal digits that read back to a floating-point number.  The numbers that round to
`m · 2 ^ e` form an interval, whose ends belong to it when `m` is even.  For one digit, two
digits and so on, the two neighbours of the value on the grid of that many digits are tested; the
first grid with a neighbour in the interval wins, and of two neighbours the nearer.
-/

namespace Trellis.Decimal

/-- Decimal digits `d₁ … dₙ` that stand for `0.d₁ … dₙ · 10 ^ point`. -/
structure Digits where
  digits : List Char
  point : Int
  deriving DecidableEq, Repr

/-- The decimal digits of a number, without leading zeros; none for zero. -/
def natDigits (n : Nat) : List Char :=
  if n = 0 then [] else Nat.toDigits 10 n

/-- `digits · 10 ^ scale` as digits, without trailing zeros. -/
def Digits.ofScaled (digits : Nat) (scale : Int) : Digits :=
  let ds := natDigits digits
  ⟨(ds.reverse.dropWhile (· == '0')).reverse, ds.length + scale⟩

/-- An interval of quotients with one denominator around a value. -/
structure Interval where
  low : Nat
  value : Nat
  high : Nat
  den : Nat
  closed : Bool

/-- The numbers that round to `significand · 2 ^ exponent`.  Below a power of two the neighbour is
half as far away. -/
def Interval.around (significand : Nat) (exponent : Int) : Interval :=
  let below := if significand = 2 ^ 52 && minExponent < exponent then 1 else 2
  let e := exponent - 2
  let up : Nat := 2 ^ e.toNat
  ⟨(4 * significand - below) * up, 4 * significand * up, (4 * significand + 2) * up,
    2 ^ (-e).toNat, significand % 2 = 0⟩

/-- `digits · 10 ^ scale` as a quotient. -/
def scaled (digits : Nat) (scale : Int) : Nat × Nat :=
  (digits * 10 ^ scale.toNat, 10 ^ (-scale).toNat)

/-- `digits · 10 ^ scale` lies in the interval. -/
def Interval.holds (i : Interval) (digits : Nat) (scale : Int) : Bool :=
  let q := scaled digits scale
  let x := q.1 * i.den
  if i.closed then i.low * q.2 ≤ x && x ≤ i.high * q.2
  else i.low * q.2 < x && x < i.high * q.2

/-- The value of the interval in whole units of `10 ^ scale`, cut off. -/
def Interval.floorUnits (i : Interval) (scale : Int) : Nat :=
  i.value * 10 ^ (-scale).toNat / (i.den * 10 ^ scale.toNat)

/-- The neighbour of the value on the grid of `10 ^ scale` that reads back: the nearer one of two,
the even one if both are equally near. -/
def Interval.neighbour? (i : Interval) (scale : Int) : Option Nat :=
  let f := i.floorUnits scale
  match i.holds f scale, i.holds (f + 1) scale with
  | false, false => none
  | true, false => some f
  | false, true => some (f + 1)
  | true, true =>
    let q := scaled (2 * f + 1) scale
    match compare (2 * i.value * q.2) (q.1 * i.den) with
    | .lt => some f
    | .gt => some (f + 1)
    | .eq => some (if f % 2 = 0 then f else f + 1)

/-- The least `k` near the binary logarithm with `value < 10 ^ k`. -/
def Interval.magnitude (i : Interval) : Int :=
  let guess := binaryLog i.value i.den * 30103 / 100000
  let above (k : Int) : Bool := i.value * 10 ^ (-k).toNat < i.den * 10 ^ k.toNat
  ([guess - 1, guess, guess + 1].find? above).getD (guess + 2)

/-- The shortest digits of a positive value; the exact ones if seventeen do not suffice. -/
def shortest (significand : Nat) (exponent : Int) : Digits :=
  let i := Interval.around significand exponent
  let k := i.magnitude
  match (List.range 17).findSome? fun n =>
      (i.neighbour? (k - (n + 1 : Nat))).map fun d => Digits.ofScaled d (k - (n + 1 : Nat)) with
  | some d => d
  | none => Digits.ofScaled (significand * 2 ^ exponent.toNat * 5 ^ (-exponent).toNat)
      (min exponent 0)

end Trellis.Decimal
