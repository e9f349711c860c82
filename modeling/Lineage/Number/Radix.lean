import Lineage.Number.Integer

namespace Lineage.Number

/-- The value of a digit: a decimal digit of any script, or a letter from ten on. -/
def radixDigit? (c : Char) : Option Nat :=
  if c.isAlpha then some (c.toLower.toNat - 0x57) else Text.digitValue? c

/-- The base that a letter marks after a zero. -/
def markedBase? (c : Char) : Option Nat :=
  match c.toLower with
  | 'b' => some 2
  | 'o' => some 8
  | 'x' => some 16
  | _ => none

/-- A number without the mark of its base, after which an underscore may stand, and its base. If zero
is given as the base the mark shows it, and without a mark it is ten. -/
def withoutMark (base : Nat) (cs : List Char) : Nat × List Char :=
  let standard := (if base = 0 then 10 else base, cs)
  match cs with
  | '0' :: c :: rest =>
    match markedBase? c with
    | some marked =>
      if base = 0 || base = marked then
        (marked, if rest.head? == some '_' then rest.drop 1 else rest)
      else standard
    | none => standard
  | _ => standard

/-- Whether a base is a power of two. The number of digits in such a base is not limited. -/
def isBinary (base : Nat) : Bool :=
  [2, 4, 8, 16, 32].contains base

/-- Reads an integer in a base: white space, a sign, the mark of the base, digits, white space. Where
the base is to be shown by a mark, no other number may start with a zero. -/
def readBased (base : Nat) (cs : List Char) : Except IntegerFault Int :=
  let (negative, body) := readSign (skipSpace cs)
  let (actual, body) := withoutMark base body
  let value? := fun c => (radixDigit? c).filter (· < actual)
  let digit := fun c => (value? c).isSome || c == '_'
  match digitGroup? value? (body.takeWhile digit) with
  | none => .error .malformed
  | some digits =>
    let size := digits.foldl (fun n d => actual * n + d) 0
    if !isBinary actual && digitLimit < digits.length then .error (.tooLong digits.length)
    else if base = 0 && actual = 10 && body.head? == some '0' && size ≠ 0 then .error .malformed
    else if (skipSpace (body.dropWhile digit)).isEmpty then .ok (if negative then -size else size)
    else .error .malformed

example : (readBased 16 "-0x_1f ".toList).toOption = some (-31) := by decide
example : (readBased 0 "010".toList).toOption = none := by decide

end Lineage.Number
