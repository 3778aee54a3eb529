import Trellis.Decimal.Shortest

/-!
# Decimal — Layout

Digits as text.  A `Layout` fixes where positional writing ends and what surrounds the digits;
`natural` is the one in which numbers stand in texts.  `fixed` and `scientific` write a set
number of places, `general` the shorter of the two.
-/

namespace Trellis.Decimal

/-- How digits are laid out. -/
structure Layout where
  /-- The least position of the point that is written positionally. -/
  least : Int
  /-- The greatest position of the point that is written positionally. -/
  greatest : Int
  /-- What a whole number has after its digits. -/
  wholeTail : List Char
  /-- The mark of the exponent. -/
  mark : Char
  /-- The least number of digits of an exponent. -/
  exponentDigits : Nat

/-- Numbers are written with the fewest digits that identify them, positionally from `0.0001` up to
sixteen places, otherwise with a signed exponent of two digits or more. -/
def natural : Layout := ⟨-3, 16, ['.', '0'], 'e', 2⟩

/-- `n` in decimal digits, padded with zeros on the left. -/
def padded (width n : Nat) : List Char :=
  let ds := Nat.toDigits 10 n
  List.replicate (width - ds.length) '0' ++ ds

/-- A signed exponent. -/
def exponentText (mark : Char) (width : Nat) (e : Int) : List Char :=
  mark :: (if e < 0 then '-' else '+') :: padded width e.natAbs

/-- Digits with the point set among them. -/
def positional (tail ds : List Char) (point : Int) : List Char :=
  if point ≤ 0 then '0' :: '.' :: List.replicate (-point).toNat '0' ++ ds
  else if ds.length ≤ point then ds ++ List.replicate (point.toNat - ds.length) '0' ++ tail
  else ds.take point.toNat ++ '.' :: ds.drop point.toNat

/-- Digits with an exponent. -/
def exponential (mark : Char) (width : Nat) (ds : List Char) (point : Int) : List Char :=
  (match ds with
    | [] => ['0']
    | [d] => [d]
    | d :: rest => d :: '.' :: rest) ++ exponentText mark width (point - 1)

/-- Digits laid out. -/
def Layout.write (l : Layout) (d : Digits) : List Char :=
  if l.least ≤ d.point && d.point ≤ l.greatest then positional l.wholeTail d.digits d.point
  else exponential l.mark l.exponentDigits d.digits d.point

/-- A minus sign, if there is one. -/
def signed (negative : Bool) (s : List Char) : List Char :=
  if negative then '-' :: s else s

/-- The text of a number in a layout. -/
def Layout.text (l : Layout) (x : Float) : String :=
  String.ofList <|
    match shape x with
    | .nan => ['n', 'a', 'n']
    | .infinite negative => signed negative ['i', 'n', 'f']
    | .finite ⟨negative, 0, _⟩ => signed negative ('0' :: l.wholeTail)
    | .finite ⟨negative, m, e⟩ => signed negative (l.write (shortest m e))

/-- The magnitude of a dyadic in units of `10 ^ (-places)`, rounded. -/
def BinaryValue.unitsAt (d : BinaryValue) (places : Int) : Nat :=
  let q := d.quotient
  roundDiv (q.1.natAbs * 10 ^ places.toNat) (q.2 * 10 ^ (-places).toNat)

/-- The magnitude of a dyadic with a set number of places after the point. -/
def BinaryValue.fixed (d : BinaryValue) (places : Nat) (point : Bool) : List Char :=
  let ds := padded (places + 1) (d.unitsAt places)
  let whole := ds.take (ds.length - places)
  if places = 0 then (if point then whole ++ ['.'] else whole)
  else whole ++ '.' :: ds.drop (ds.length - places)

/-- The digits of a positive magnitude rounded to `count` digits, and the position of the point. -/
def BinaryValue.rounded (d : BinaryValue) (count : Nat) : List Char × Int :=
  if d.significand = 0 then (List.replicate count '0', 1)
  else
    let k := (Interval.around d.significand d.exponent).magnitude
    let ds := Nat.toDigits 10 (d.unitsAt (count - k))
    if ds.length = count then (ds, k) else (ds.take count, k + 1)

/-- The magnitude of a dyadic with one digit before the point, a set number of places and an
exponent. -/
def BinaryValue.scientific (d : BinaryValue) (places : Nat) (mark : Char) (point : Bool) :
    List Char :=
  let r := d.rounded (places + 1)
  let body := match r.1 with
    | [] => []
    | [c] => if point then [c, '.'] else [c]
    | c :: cs => c :: '.' :: cs
  body ++ exponentText mark 2 (r.2 - 1)

/-- Without the zeros at the end of the places, and without a point that ends the digits. -/
def dropPlaces (s : List Char) : List Char :=
  if s.contains '.' then
    match s.reverse.dropWhile (· == '0') with
    | '.' :: r => r.reverse
    | r => r.reverse
  else s

/-- The magnitude of a dyadic with a set number of significant digits, positionally where the
exponent is at least `-4` and below that number.  Zeros at the end are kept only with `point`. -/
def BinaryValue.general (d : BinaryValue) (precision : Nat) (mark : Char) (point : Bool) :
    List Char :=
  let count := max precision 1
  let r := d.rounded count
  let e := r.2 - 1
  if -4 ≤ e && e < count then
    let s := d.fixed ((count : Int) - 1 - e).toNat point
    if point then s else dropPlaces s
  else
    let body := match r.1 with
      | [] => []
      | [c] => if point then [c, '.'] else [c]
      | c :: cs => c :: '.' :: cs
    (if point then body else dropPlaces body) ++ exponentText mark 2 e

end Trellis.Decimal
