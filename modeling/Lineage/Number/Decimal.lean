namespace Lineage.Number

/-- A decimal number, `digits * 10 ^ exponent` up to its sign. -/
structure Decimal where
  negative : Bool
  digits : Nat
  exponent : Int
  deriving DecidableEq, Repr

/-- The number of decimal digits of a natural number; zero has one. -/
def digitCount (n : Nat) : Nat :=
  (Nat.toDigits 10 n).length

/-- The float nearest to a decimal number. The powers of ten that are beyond every float are not
computed. -/
def Decimal.toFloat (d : Decimal) : Float :=
  let size : Float :=
    if d.digits = 0 then 0
    else
      let top : Int := digitCount d.digits + d.exponent
      if top > 400 then Float.ofScientific 1 false 400
      else if top < -400 then 0
      else if 0 ≤ d.exponent then Float.ofScientific d.digits false d.exponent.toNat
      else Float.ofScientific d.digits true (-d.exponent).toNat
  if d.negative then -size else size

/-- The float nearest to an integer, unless that is infinite. -/
def floatOfInt? (n : Int) : Option Float :=
  let x := Decimal.toFloat ⟨n < 0, n.natAbs, 0⟩
  if x.isInf then none else some x

end Lineage.Number
