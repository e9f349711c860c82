import Lineage.Number.Decimal
import Lineage.Number.Integer

namespace Lineage.Number

/-- Removes the underscores of a text, each of which must stand between two digits; `previous` tells
whether a digit comes before the text. -/
def dropUnderscores? (previous : Bool) : List Char → Option (List Char)
  | [] => some []
  | '_' :: c :: rest =>
    if previous && Text.isDigit c then (dropUnderscores? true rest).map (c :: ·) else none
  | c :: rest => if c == '_' then none else (dropUnderscores? (Text.isDigit c) rest).map (c :: ·)

/-- The values of the digits at the start of a text, and what follows them. -/
def spanDigits (cs : List Char) : List Nat × List Char :=
  ((cs.takeWhile Text.isDigit).filterMap Text.digitValue?, cs.dropWhile Text.isDigit)

/-- The exponent after a significand: none, or a letter E, a sign and digits up to the end. -/
def readExponent? : List Char → Option Int
  | [] => some 0
  | c :: rest =>
    if c == 'e' || c == 'E' then
      let (negative, body) := readSign rest
      match spanDigits body with
      | (d :: ds, []) =>
        let size : Int := ofDigits (d :: ds)
        some (if negative then -size else size)
      | _ => none
    else none

/-- An unsigned decimal number: digits with a point before, among or after them, and an exponent. -/
def readDecimal? (negative : Bool) (cs : List Char) : Option Decimal :=
  let (whole, rest) := spanDigits cs
  let (fraction, rest) := match rest with
    | '.' :: after => spanDigits after
    | _ => ([], rest)
  let digits := whole ++ fraction
  if digits.isEmpty then none
  else (readExponent? rest).map fun e => ⟨negative, ofDigits digits, e - fraction.length⟩

/-- Reads a float: white space, a sign, a decimal number or the name of an infinity or of NaN, white
space. -/
def readFloat? (cs : List Char) : Option Float := do
  let cs ← dropUnderscores? false (skipSpace (skipSpace cs).reverse).reverse
  let (negative, body) := readSign cs
  let name := String.ofList (body.map Char.toLower)
  if name == "inf" || name == "infinity" then
    return if negative then -(1.0 / 0.0) else 1.0 / 0.0
  else if name == "nan" then
    return 0.0 / 0.0
  else
    return (← readDecimal? negative body).toFloat

end Lineage.Number
