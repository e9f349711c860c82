import Lineage.Fault
import Lineage.Number.FloatText
import Lineage.Number.Integer
import Lineage.Text.Quoted
import Lineage.Value

namespace Lineage.Json

/-- The escape of a character outside ASCII: one code unit, or two of a surrogate pair. -/
def escapeUnits (code : Nat) : List Char :=
  if code < 0x10000 then '\\' :: 'u' :: Text.hex 4 code
  else
    let offset := code - 0x10000
    '\\' :: 'u' :: Text.hex 4 (0xD800 + offset / 0x400)
      ++ '\\' :: 'u' :: Text.hex 4 (0xDC00 + offset % 0x400)

/-- One character inside a text literal. -/
def writtenChar (c : Char) : List Char :=
  match c with
  | '"' => ['\\', '"']
  | '\\' => ['\\', '\\']
  | '\n' => ['\\', 'n']
  | '\r' => ['\\', 'r']
  | '\t' => ['\\', 't']
  | '\x08' => ['\\', 'b']
  | '\x0c' => ['\\', 'f']
  | c => if 0x20 ≤ c.toNat && c.toNat < 0x7F then [c] else escapeUnits (Text.codePoint c)

/-- The literal of a text, in ASCII. -/
def textLiteral (s : String) : String :=
  String.ofList ('"' :: s.toList.flatMap writtenChar ++ ['"'])

/-- The text of a float; infinities and NaN have names. -/
def floatLiteral (x : Float) : String :=
  if x.isNaN then "NaN"
  else if x.isInf then if x < 0 then "-Infinity" else "Infinity"
  else Number.floatText x

/-- The text of an integer. -/
def integerLiteral (n : Int) : Except Fault String :=
  match Number.integerText? n with
  | some s => .ok s
  | none => .error .digitsWritten

/-- The text of a key. Numbers, truth values and null are written like texts. -/
def keyLiteral : Value → Except Fault String
  | .text s => .ok (textLiteral s)
  | .bool b => .ok (if b then "\"true\"" else "\"false\"")
  | .null => .ok "\"null\""
  | .int n => (integerLiteral n).map fun s => "\"" ++ s ++ "\""
  | .float x => .ok ("\"" ++ floatLiteral x ++ "\"")
  | v => .error (.keyNotWritable v.kindName)

/-- Writes a value on one line at the end of `out`. -/
def writeOn (out : String) : Value → Except Fault String
  | .null => .ok (out ++ "null")
  | .bool b => .ok (out ++ if b then "true" else "false")
  | .int n => (integerLiteral n).map (out ++ ·)
  | .float x => .ok (out ++ floatLiteral x)
  | .text s => .ok (out ++ textLiteral s)
  | .list items | .tuple items => return (← writeItems (out ++ "[") "" items) ++ "]"
  | .map entries => return (← writeEntries (out ++ "\x7b") "" entries) ++ "\x7d"
  | v => .error (.notWritable v.kindName)
where
  /-- Writes items, `lead` before the first and commas before the others. -/
  writeItems (out lead : String) : List Value → Except Fault String
    | [] => .ok out
    | v :: rest => do writeItems (← writeOn (out ++ lead) v) ", " rest
  /-- Writes entries, `lead` before the first and commas before the others. -/
  writeEntries (out lead : String) : List (Value × Value) → Except Fault String
    | [] => .ok out
    | (k, v) :: rest => do
      let key ← keyLiteral k
      writeEntries (← writeOn (out ++ lead ++ key ++ ": ") v) ", " rest

/-- The text of a value, on one line. -/
def write (v : Value) : Except Fault String :=
  writeOn "" v

end Lineage.Json
