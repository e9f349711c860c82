import Lineage.Fault
import Lineage.Number.Radix
import Lineage.Number.Real
import Lineage.Text.Encoding
import Lineage.Value.Key
import Lineage.Value.Literal

namespace Lineage.Value

/-- The characters of a byte string that holds ASCII text. -/
def asciiChars (data : List UInt8) : List Char :=
  data.map fun byte => Char.ofNat (if byte.toNat < 0x80 then byte.toNat else 0xFFFD)

/-- Reads an integer in a base from a text whose literal is given for messages. -/
def integerOfText (base : Nat) (literal : String) (cs : List Char) : Except Fault Value :=
  match Number.readBased base cs with
  | .ok n => .ok (.int n)
  | .error (.tooLong digits) => .error (.digitsRead digits)
  | .error .malformed => .error (.notInteger base (String.ofList (literal.toList.take 200)))

/-- Reads an integer in a base from a byte string. -/
def integerOfBytes (base : Nat) (data : List UInt8) : Except Fault Value :=
  integerOfText base (Text.quotedBytes (data.take 200)) (asciiChars data)

/-- A value as an integer: numbers are cut off towards zero, and texts are read. -/
def toInteger : Value → Except Fault Value
  | .bool b => .ok (.int (if b then 1 else 0))
  | .int n => .ok (.int n)
  | .float x =>
    match Number.Binary.ofFloat? x with
    | some b => .ok (.int b.truncate)
    | none => .error (if x.isNaN then .nanToInteger else .infinityToInteger)
  | .text s => integerOfText 10 (Text.quoted s) s.toList
  | .bytes data => integerOfBytes 10 data
  | v => .error (.noInteger v.kindName)

/-- A value as the base of an integer: from 2 to 36, or 0 if the text shows the base. -/
def toBase (v : Value) : Except Fault Nat :=
  match v.asInt? with
  | none => .error (.noIndex v.kindName)
  | some n => if n == 0 || (2 ≤ n && n ≤ 36) then .ok n.toNat else .error .badBase

/-- A text or a byte string as an integer in a base. -/
def toIntegerIn (v base : Value) : Except Fault Value := do
  let base ← base.toBase
  match v with
  | .text s => integerOfText base (Text.quoted s) s.toList
  | .bytes data => integerOfBytes base data
  | _ => throw .baseWithoutText

/-- Reads a float from a text whose literal is given for messages. -/
def floatOfText (literal : String) (cs : List Char) : Except Fault Value :=
  match Number.readFloat? cs with
  | some x => .ok (.float x)
  | none => .error (.notFloat literal)

/-- An integer as a float. -/
def floatOfInt (n : Int) : Except Fault Float :=
  match Number.floatOfInt? n with
  | some x => .ok x
  | none => .error .tooLargeForFloat

/-- A value as a float: the nearest one for integers, and texts are read. -/
def toReal : Value → Except Fault Value
  | .bool b => .ok (.float (if b then 1 else 0))
  | .int n => (floatOfInt n).map .float
  | .float x => .ok (.float x)
  | .text s => floatOfText (Text.quoted s) s.toList
  | .bytes data => floatOfText (Text.quotedBytes data) (asciiChars data)
  | v => .error (.noFloat v.kindName)

/-- A value as a text. -/
def toText (v : Value) : Except Fault Value :=
  if v.isTooLong then .error .digitsWritten else .ok (.text v.plainText)

/-- The text that an argument of a function holds, which must be one without a zero character. -/
def argumentText (function argument : String) : Value → Except Fault String
  | .text s =>
    match Text.encodeUtf8 s with
    | .error fault => .error (.badText fault.message)
    | .ok _ => if s.toList.contains '\x00' then .error (.nullInText "character") else .ok s
  | .null => .error (.noTextArgument function argument "None")
  | v => .error (.noTextArgument function argument v.kindName)

/-- Decodes bytes in an encoding, with the name of a repair for bytes that are not decoded. -/
def decodeBytes (data : List UInt8) (encoding repair : String) : Except Fault Value :=
  match Text.Encoding.ofName? encoding with
  | none => .error (.noEncoding encoding)
  | some e =>
    let unrepaired := fun (kind : String) (fault : Fault) =>
      if Text.Encoding.builtIn.contains (Text.Encoding.normalName encoding) then Except.error fault
      else .error (.unrepaired encoding kind fault.message)
    match e.decode (fun _ => .none) data, Text.repairs.lookup repair with
    | .ok s, _ => .ok (.text s)
    | .error _, none => unrepaired "LookupError" (.noRepair repair)
    | .error _, some none => unrepaired "TypeError" .repairUnfit
    | .error _, some (some repair) =>
      match e.decode repair data with
      | .ok s => .ok (.text s)
      | .error fault => .error (.badEncoding fault.message)

/-- A byte string as a text, by the names of its encoding and of a repair. -/
def toTextIn (v encoding repair : Value) : Except Fault Value := do
  let encoding ← argumentText "str" "encoding" encoding
  let repair ← argumentText "str" "errors" repair
  match v with
  | .bytes [] => return .text ""
  | .bytes data => decodeBytes data encoding repair
  | .text _ => throw .textDecoded
  | v => throw (.notDecoded v.kindName)

/-- A value as a truth value. -/
def toTruth (v : Value) : Value :=
  .bool v.truthy

/-- The sum of two numbers, or two texts, byte strings or lists one after the other. -/
def add (a b : Value) : Except Fault Value :=
  match a, b with
  | .text s, .text t => .ok (.text (s ++ t))
  | .bytes xs, .bytes ys => .ok (.bytes (xs ++ ys))
  | .list xs, .list ys => .ok (.list (xs ++ ys))
  | .tuple xs, .tuple ys => .ok (.tuple (xs ++ ys))
  | .bytes _, b => .error (.noBytes b.kindName)
  | .text _, b | .list _, b | .tuple _, b => .error (.noConcatenation a.kindName b.kindName)
  | .float x, .float y => .ok (.float (x + y))
  | a, b =>
    match a.asInt?, b.asInt?, a, b with
    | some m, some n, _, _ => .ok (.int (m + n))
    | some m, none, _, .float y => return .float ((← floatOfInt m) + y)
    | none, some n, .float x, _ => return .float (x + (← floatOfInt n))
    | _, _, _, _ => .error (.noSum a.kindName b.kindName)

/-- The number of characters, bytes, items or entries. -/
def length : Value → Except Fault Nat
  | .text s => .ok s.length
  | .bytes data => .ok data.length
  | .list items | .tuple items | .set items => .ok items.length
  | .map entries => .ok entries.length
  | v => .error (.noLength v.kindName)

end Lineage.Value
