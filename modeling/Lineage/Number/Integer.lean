import Lineage.Text.Blank
import Lineage.Text.Digit

namespace Lineage.Number

/-- Integers with more digits are neither read nor written. -/
def digitLimit : Nat := 4300

/-- The white space that is skipped around a number. -/
def isSpace (c : Char) : Bool :=
  Text.isBlank c && !(0x1C ≤ c.toNat && c.toNat ≤ 0x1F)

/-- A text without the white space at its start. -/
def skipSpace (cs : List Char) : List Char :=
  cs.dropWhile isSpace

/-- An optional sign: whether it is a minus, and what follows it. -/
def readSign : List Char → Bool × List Char
  | '-' :: rest => (true, rest)
  | '+' :: rest => (false, rest)
  | cs => (false, cs)

/-- The number that decimal digits write. -/
def ofDigits (digits : List Nat) : Nat :=
  digits.foldl (fun n d => 10 * n + d) 0

/-- The values of the digits of a group in which a single underscore may stand between two digits. -/
def digitGroup? (value? : Char → Option Nat) : List Char → Option (List Nat)
  | [] => none
  | [c] => (value? c).map ([·])
  | c :: '_' :: rest => do return (← value? c) :: (← digitGroup? value? rest)
  | c :: rest => do return (← value? c) :: (← digitGroup? value? rest)

/-- Why a text is not read as an integer. -/
inductive IntegerFault where
  | malformed
  | tooLong (digits : Nat)
  deriving DecidableEq, Repr

/-- Reads an integer: white space, a sign, digits of any script, white space. -/
def readInteger (cs : List Char) : Except IntegerFault Int :=
  let (negative, body) := readSign (skipSpace cs)
  let digit := fun c => Text.isDigit c || c == '_'
  match digitGroup? Text.digitValue? (body.takeWhile digit) with
  | none => .error .malformed
  | some digits =>
    if digits.length > digitLimit then .error (.tooLong digits.length)
    else if (skipSpace (body.dropWhile digit)).isEmpty then
      .ok (if negative then -(ofDigits digits) else ofDigits digits)
    else .error .malformed

/-- The text of an integer, unless it has too many digits. -/
def integerText? (n : Int) : Option String :=
  let digits := Nat.toDigits 10 n.natAbs
  if digits.length > digitLimit then none
  else some (String.ofList (if n < 0 then '-' :: digits else digits))

end Lineage.Number
