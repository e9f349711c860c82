namespace Lineage.Text

/-- The six bits that a character stands for. -/
def sextet? (c : Char) : Option Nat :=
  let code := c.toNat
  if 0x41 ≤ code && code ≤ 0x5A then some (code - 0x41)
  else if 0x61 ≤ code && code ≤ 0x7A then some (code - 0x47)
  else if 0x30 ≤ code && code ≤ 0x39 then some (code + 4)
  else if c == '+' then some 62
  else if c == '/' then some 63
  else none

/-- Goes on with bytes that are written in groups of four characters: `place` characters of the group
were read, `left` is what they leave for the next byte, and `pads` padding characters came last. Other
characters are skipped, and the text ends where the padding completes a group. -/
def decodeGroups (place left pads : Nat) : List Char → Option (List UInt8)
  | [] => if place = 0 then some [] else none
  | c :: rest =>
    if c == '=' then
      if 2 ≤ place && 4 ≤ place + pads + 1 then some []
      else decodeGroups place left (if 2 ≤ place then pads + 1 else pads) rest
    else
      match sextet? c with
      | none => decodeGroups place left pads rest
      | some n =>
        if place = 0 then decodeGroups 1 n 0 rest
        else if place = 1 then
          (decodeGroups 2 (n % 16) 0 rest).map (UInt8.ofNat (left * 4 + n / 16) :: ·)
        else if place = 2 then
          (decodeGroups 3 (n % 4) 0 rest).map (UInt8.ofNat (left * 16 + n / 4) :: ·)
        else (decodeGroups 0 0 0 rest).map (UInt8.ofNat (left * 64 + n) :: ·)

/-- The bytes that a text writes in base 64. -/
def decodeBase64? (cs : List Char) : Option (List UInt8) :=
  decodeGroups 0 0 0 cs

example : decodeBase64? "ab==cd".toList = some [0x69] := by decide
example : decodeBase64? "abc".toList = none := by decide

end Lineage.Text
