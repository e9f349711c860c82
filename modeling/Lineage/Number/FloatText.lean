import Lineage.Number.Binary
import Lineage.Number.Decimal

namespace Lineage.Number

/-- The reals that round to one float, in multiples of `1 / den`: from `low` to `high`, around
`value`. The ends belong to it when the mantissa is even. -/
structure Interval where
  low : Nat
  value : Nat
  high : Nat
  den : Nat
  closed : Bool

/-- The reals that round to the float of the given mantissa and exponent. Below a power of two the
next float is half as far away. -/
def roundingInterval (mantissa : Nat) (exponent : Int) : Interval :=
  let below := if mantissa = Nat.pow 2 52 && exponent > -1074 then 1 else 2
  let unit := Nat.pow 2 (exponent - 2).toNat
  { low := (4 * mantissa - below) * unit
    value := 4 * mantissa * unit
    high := (4 * mantissa + 2) * unit
    den := Nat.pow 2 (2 - exponent).toNat
    closed := mantissa % 2 == 0 }

/-- Whether `d * 10 ^ e` lies in the interval. -/
def Interval.has (i : Interval) (d : Nat) (e : Int) : Bool :=
  let point := d * Nat.pow 10 e.toNat * i.den
  let scale := Nat.pow 10 (-e).toNat
  if i.closed then i.low * scale ≤ point && point ≤ i.high * scale
  else i.low * scale < point && point < i.high * scale

/-- The position of the decimal point before the first digit of the value. -/
def Interval.point (i : Interval) : Int :=
  if i.den ≤ i.value then digitCount (i.value / i.den)
  else
    match (List.range 400).find? fun j => i.den ≤ i.value * Nat.pow 10 (j + 1) with
    | some j => -(j : Int)
    | none => -400

/-- The point of the grid of step `10 ^ e` in the interval that is nearest to the value; of two that
are equally near the even one. -/
def Interval.onGrid? (i : Interval) (e : Int) : Option Nat :=
  let value := i.value * Nat.pow 10 (-e).toNat
  let step := Nat.pow 10 e.toNat * i.den
  let d := value / step
  let nearer := if 2 * (value - d * step) < step then d
    else if 2 * (value - d * step) > step then d + 1
    else if d % 2 == 0 then d else d + 1
  let farther := if nearer = d then d + 1 else d
  if i.has nearer e then some nearer else if i.has farther e then some farther else none

/-- Removes the zeros at the end of the digits. -/
def trimZeros : Nat → Nat → Int → Nat × Int
  | 0, d, e => (d, e)
  | fuel + 1, d, e => if d % 10 = 0 && d ≠ 0 then trimZeros fuel (d / 10) (e + 1) else (d, e)

/-- The fewest digits that read back as the same float; of several such numbers the nearest. -/
def shortest (b : Binary) : Decimal :=
  if b.mantissa = 0 then ⟨b.negative, 0, 0⟩
  else
    let i := roundingInterval b.mantissa b.exponent
    let point := i.point
    let found := (List.range 17).findSome? fun (n : Nat) =>
      let e := point - ((n : Int) + 1)
      (i.onGrid? e).map fun d => (d, e)
    let (d, e) := found.getD (i.value / i.den, 0)
    let (digits, exponent) := trimZeros 20 d e
    ⟨b.negative, digits, exponent⟩

/-- A text of zeros. -/
def zeros (n : Nat) : List Char :=
  List.replicate n '0'

/-- An exponent with its sign and at least two digits. -/
def exponentText (e : Int) : List Char :=
  let digits := Nat.toDigits 10 e.natAbs
  (if e < 0 then '-' else '+') :: (if digits.length < 2 then '0' :: digits else digits)

/-- A decimal number in positional notation, if its first digit stands for a power of ten from
`10 ^ -4` below `10 ^ 16`, and else in exponent notation. -/
def decimalText (d : Decimal) : List Char :=
  let digits := Nat.toDigits 10 d.digits
  let point : Int := if d.digits = 0 then 1 else digits.length + d.exponent
  let body :=
    if -4 < point && point ≤ 16 then
      if point ≤ 0 then '0' :: '.' :: zeros (-point).toNat ++ digits
      else if digits.length ≤ point.toNat then
        digits ++ zeros (point.toNat - digits.length) ++ ['.', '0']
      else digits.take point.toNat ++ '.' :: digits.drop point.toNat
    else
      match digits with
      | first :: [] => first :: 'e' :: exponentText (point - 1)
      | first :: rest => first :: '.' :: rest ++ 'e' :: exponentText (point - 1)
      | [] => []
  if d.negative then '-' :: body else body

/-- The text of a float: the shortest that reads back. -/
def floatText (x : Float) : String :=
  match Binary.ofFloat? x with
  | some b => String.ofList (decimalText (shortest b))
  | none => if x.isNaN then "nan" else if x < 0 then "-inf" else "inf"

end Lineage.Number
