namespace Lineage.Text

/-- The code points of the halves of surrogate pairs, none of which is a character. -/
def isHalf (code : Nat) : Bool :=
  0xD800 ≤ code && code ≤ 0xDFFF

/-- The distance from a half to its stand-in, a character of a plane to which nothing is assigned. -/
def halfOffset : Nat := 0xD0000

/-- A character by its code point; half of a surrogate pair has a stand-in. -/
def charOfCode (code : Nat) : Char :=
  if isHalf code then Char.ofNat (halfOffset + code) else Char.ofNat code

/-- The half that a character stands for, if it is a stand-in. -/
def half? (c : Char) : Option Nat :=
  let code := c.toNat - halfOffset
  if isHalf code then some code else none

/-- The code point of a character, or of the half that it stands for. -/
def codePoint (c : Char) : Nat :=
  (half? c).getD c.toNat

/-- Whether a text comes before another by its code points. -/
def before (s t : String) : Bool :=
  s.toList.map codePoint < t.toList.map codePoint

/-- Whether two texts are in order by their code points, or the same. -/
def inOrder (s t : String) : Bool :=
  !before t s

example : codePoint (charOfCode 0xD800) = 0xD800 := by decide
example : codePoint (charOfCode 0x41) = 0x41 := by decide

end Lineage.Text
