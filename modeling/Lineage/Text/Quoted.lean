import Lineage.Text.Half
import Lineage.Text.Hex
import Lineage.Text.Printable

namespace Lineage.Text

/-- The escape of a character by its code point, in the shortest of the three widths. -/
def escapeCode (code : Nat) : List Char :=
  if code < 0x100 then '\\' :: 'x' :: hex 2 code
  else if code < 0x10000 then '\\' :: 'u' :: hex 4 code
  else '\\' :: 'U' :: hex 8 code

/-- A quoted literal stands in single quotes, unless only double quotes spare an escape. -/
def quoteMark (cs : List Char) : Char :=
  if cs.contains '\x27' && !cs.contains '"' then '"' else '\x27'

/-- One character inside a literal that stands between the given quotes. -/
def quotedChar (mark c : Char) : List Char :=
  if c == mark || c == '\\' then ['\\', c]
  else if c == '\n' then ['\\', 'n']
  else if c == '\r' then ['\\', 'r']
  else if c == '\t' then ['\\', 't']
  else if isPrintable c then [c]
  else escapeCode (codePoint c)

/-- The literal of a text: quoted, with unprintable characters escaped. -/
def quoted (s : String) : String :=
  let cs := s.toList
  let mark := quoteMark cs
  String.ofList (mark :: cs.flatMap (quotedChar mark) ++ [mark])

/-- One byte inside a literal that stands between the given quotes. -/
def quotedByte (mark : Char) (byte : UInt8) : List Char :=
  let c := Char.ofNat byte.toNat
  if byte.toNat < 0x7F then quotedChar mark c else escapeCode byte.toNat

/-- The literal of a byte string. -/
def quotedBytes (bytes : List UInt8) : String :=
  let mark := quoteMark (bytes.map fun byte => Char.ofNat byte.toNat)
  String.ofList ('b' :: mark :: bytes.flatMap (quotedByte mark) ++ [mark])

example : quoted "it's" = "\"it's\"" := by decide
example : quoted "'\"" = "'\\'\"'" := by decide

end Lineage.Text
