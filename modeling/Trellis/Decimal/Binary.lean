/-!
# Decimal — Binary

Floating-point numbers as exact values, and exact values rounded to floating-point numbers.

* `shape` reads a number as a sign and `significand · 2 ^ exponent`, or as one of the values
  that are not finite.
* `roundDiv` is the quotient rounded to the nearest whole number, a tie to the even one.
* `nearest` is the number nearest to a quotient, a tie to the even significand; quotients beyond
  the range give infinity.
-/

namespace Trellis.Decimal

/-- Powers of whole numbers are those of the core library, whatever else is imported. -/
@[default_instance 20000]
instance (priority := 1100) power {α : Type} [NatPow α] : Pow α Nat := instPowNat

/-- The exact value `± significand · 2 ^ exponent`. -/
structure BinaryValue where
  negative : Bool
  significand : Nat
  exponent : Int
  deriving DecidableEq, Repr

/-- What a floating-point number stands for. -/
inductive Shape where
  | nan
  | infinite (negative : Bool)
  | finite (value : BinaryValue)
  deriving DecidableEq, Repr

/-- The smallest exponent of a significand. -/
def minExponent : Int := -1074

/-- The bits of positive infinity. -/
def infinityBits : Nat := 0x7ff * 2 ^ 52

/-- The bit of the sign. -/
def signBit : Nat := 2 ^ 63

/-- What the number with these bits stands for. -/
def shapeOfBits (bits : Nat) : Shape :=
  let negative := decide (signBit ≤ bits)
  let magnitude := bits % signBit
  let field := magnitude / 2 ^ 52
  let fraction := magnitude % 2 ^ 52
  if field = 0x7ff then
    if fraction = 0 then .infinite negative else .nan
  else if field = 0 then .finite ⟨negative, fraction, minExponent⟩
  else .finite ⟨negative, 2 ^ 52 + fraction, minExponent + (field - 1 : Nat)⟩

/-- What a floating-point number stands for. -/
def shape (x : Float) : Shape :=
  shapeOfBits x.toBits.toNat

/-- The quotient rounded to the nearest whole number, a tie to the even one. -/
def roundDiv (num den : Nat) : Nat :=
  let q := num / den
  let r := num % den
  if den < 2 * r || (den = 2 * r && q % 2 = 1) then q + 1 else q

/-- `num / den < 2 ^ e`. -/
def belowPow (num den : Nat) (e : Int) : Bool :=
  match e with
  | .ofNat k => num < den * 2 ^ k
  | .negSucc k => num * 2 ^ (k + 1) < den

/-- The whole part of the binary logarithm of a positive quotient. -/
def binaryLog (num den : Nat) : Int :=
  let guess : Int := (num.log2 : Int) - (den.log2 : Int)
  if belowPow num den guess then guess - 1 else guess

/-- The quotient `num / den` in units of `2 ^ e`, rounded. -/
def roundUnits (num den : Nat) (e : Int) : Nat :=
  match e with
  | .ofNat k => roundDiv num (den * 2 ^ k)
  | .negSucc k => roundDiv (num * 2 ^ (k + 1)) den

/-- The bits of the number nearest to a quotient. -/
def nearestBits (num den : Nat) : Nat :=
  if num = 0 then 0
  else
    let e := max (binaryLog num den - 52) minExponent
    min ((e - minExponent).toNat * 2 ^ 52 + roundUnits num den e) infinityBits

/-- The number with the given sign nearest to a quotient. -/
def nearest (negative : Bool) (num den : Nat) : Float :=
  Float.ofBits (UInt64.ofNat (nearestBits num den + if negative then signBit else 0))

/-- The number nearest to a whole number. -/
def ofInt (n : Int) : Float :=
  nearest (n < 0) n.natAbs 1

/-- The exact value of a dyadic as a quotient of whole numbers. -/
def BinaryValue.quotient (d : BinaryValue) : Int × Nat :=
  let m : Int := if d.negative then -(d.significand : Int) else d.significand
  match d.exponent with
  | .ofNat k => (m * 2 ^ k, 1)
  | .negSucc k => (m, 2 ^ (k + 1))

/-- The whole part of a dyadic, cut towards zero. -/
def BinaryValue.truncate (d : BinaryValue) : Int :=
  let q := d.quotient
  Int.tdiv q.1 q.2

/-- A dyadic that is a whole number. -/
def BinaryValue.isWhole (d : BinaryValue) : Bool :=
  let q := d.quotient
  q.1 % q.2 == 0

/-- The order of a whole number and a dyadic. -/
def BinaryValue.compareInt (n : Int) (d : BinaryValue) : Ordering :=
  let q := d.quotient
  compare (n * q.2) q.1

/-- The remainder of the division of the magnitudes, with the sign of the dividend. -/
def BinaryValue.remainder (a b : BinaryValue) : Float :=
  let e := min a.exponent b.exponent
  let m := a.significand * 2 ^ (a.exponent - e).toNat
  let n := b.significand * 2 ^ (b.exponent - e).toNat
  match e with
  | .ofNat k => nearest a.negative (m % n * 2 ^ k) 1
  | .negSucc k => nearest a.negative (m % n) (2 ^ (k + 1))

end Trellis.Decimal
