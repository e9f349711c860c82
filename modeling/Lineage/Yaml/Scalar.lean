import Lineage.Text.Base64
import Lineage.Text.LowerCase
import Lineage.Value.Calendar
import Lineage.Value.Coerce
import Lineage.Yaml.Node
import Lineage.Yaml.Token

namespace Lineage.Yaml

/-- A scalar without a sign at its start, and whether the sign is a minus. -/
def signed (cs : List Char) : Except Fault (Bool × List Char) :=
  match Number.readSign cs with
  | (negative, []) => if cs.isEmpty then .error .beyondText else .ok (negative, [])
  | found => .ok found

/-- The parts of a scalar between its colons. -/
def sixtieths (cs : List Char) : List (List Char) :=
  let (first, groups) := colonGroups cs
  first :: groups

/-- An integer that is read, and negated after a minus. -/
def negatedInt (negative : Bool) : Value → Value
  | .int n => .int (if negative then -n else n)
  | v => v

/-- Reads an integer in a base, in the scalar from its first digit on. -/
def readBase (base : Nat) (digits : List Char) : Except Fault Value :=
  Value.integerOfText base (Text.quoted (String.ofList digits)) digits

/-- Reads an integer: binary, hexadecimal, octal after another zero, in base sixty or decimal. -/
def readInt (s : String) : Except Fault Value := do
  let (negative, body) ← signed (s.toList.filter (· != '_'))
  let size ← match body with
    | [] => throw .beyondText
    | ['0'] => pure (.int 0)
    | '0' :: 'b' :: digits => readBase 2 digits
    | '0' :: 'x' :: digits => readBase 16 digits
    | '0' :: digits => readBase 8 ('0' :: digits)
    | digits =>
      if digits.contains ':' then do
        let parts ← (sixtieths digits).mapM (readBase 10)
        pure (.int (parts.foldl (fun n part => 60 * n + (part.asInt?.getD 0)) 0))
      else readBase 10 digits
  return negatedInt negative size

/-- Adds the parts of a float in base sixty, from the last one on. -/
def addSixtieths (sum : Float) (base : Nat) : List Float → Except Fault Float
  | [] => .ok sum
  | x :: rest => do
    let weight ← Value.floatOfInt base
    addSixtieths (sum + x * weight) (base * 60) rest

/-- Reads the digits of a float. -/
def readDigits (cs : List Char) : Except Fault Float := do
  match ← Value.floatOfText (Text.quoted (String.ofList cs)) cs with
  | .float x => return x
  | _ => return 0

/-- A float without underscores and in small letters. -/
def plainFloat (s : String) : List Char :=
  (Text.lower (String.ofList (s.toList.filter (· != '_')))).toList

/-- Whether a float is the word for what is not a number, whatever its sign. -/
def isNotNumber (s : String) : Bool :=
  (Number.readSign (plainFloat s)).2 == ".nan".toList

/-- Reads a float: an infinity, not a number, in base sixty or decimal. -/
def readFloat (s : String) : Except Fault Value := do
  let (negative, body) ← signed (plainFloat s)
  let sign : Float := if negative then -1 else 1
  if body == ".inf".toList then return .float (sign * (1.0 / 0.0))
  else if body == ".nan".toList then return .float (0.0 / 0.0)
  else if body.contains ':' then
    let parts ← (sixtieths body).mapM readDigits
    return .float (sign * (← addSixtieths 0 1 parts.reverse))
  else return .float (sign * (← readDigits body))

/-- Checks that a day is in the calendar. -/
def checkDate (d : Date) : Except Fault Unit :=
  if d.year == 0 then .error (.badCalendar "year 0 is out of range")
  else if d.month == 0 || 12 < d.month then .error (.badCalendar "month must be in 1..12")
  else if d.day == 0 || daysOfMonth d.year d.month < d.day then
    .error (.badCalendar "day is out of range for month")
  else .ok ()

/-- Checks that a time is on the clock. -/
def checkClock (hour minute second : Nat) : Except Fault Unit :=
  if 24 ≤ hour then .error (.badCalendar "hour must be in 0..23")
  else if 60 ≤ minute then .error (.badCalendar "minute must be in 0..59")
  else if 60 ≤ second then .error (.badCalendar "second must be in 0..59")
  else .ok ()

/-- The distance of a clock from universal time, which must be less than a day. -/
def checkOffset (negative : Bool) (hours minutes : Nat) : Except Fault Int :=
  let size : Int := 3600 * hours + 60 * minutes
  let seconds := if negative then -size else size
  if size < 86400 then .ok seconds
  else
    .error (.badCalendar (s!"offset must be a timedelta strictly between -timedelta(hours=24) and "
      ++ s!"timedelta(hours=24), not {durationLiteral seconds}."))

/-- The number that ASCII digits write. -/
def ofDigitChars (digits : List Char) : Nat :=
  digits.foldl (fun n c => 10 * n + (c.toNat - 0x30)) 0

/-- A timestamp as a day or a time. Of a fraction six digits count. -/
def Timestamp.toValue (t : Timestamp) : Except Fault Value := do
  let date : Date := ⟨ofDigitChars t.year, ofDigitChars t.month, ofDigitChars t.day⟩
  match t.clock with
  | none =>
    checkDate date
    return .date date
  | some (hour, minute, second) =>
    let micros := ofDigitChars ((t.fraction ++ List.replicate 6 '0').take 6)
    let offset ← match t.zone with
      | none => pure none
      | some none => pure (some 0)
      | some (some (negative, hours, minutes)) =>
        some <$> checkOffset negative (ofDigitChars hours) (ofDigitChars minutes)
    checkDate date
    let (hour, minute, second) := (ofDigitChars hour, ofDigitChars minute, ofDigitChars second)
    checkClock hour minute second
    return .moment ⟨date, hour, minute, second, micros, offset⟩

/-- The fault of a value that cannot be made, as the refusal of its document. -/
def refusing (found : Except Fault Value) : Except Refusal Value :=
  found.mapError .fault

/-- The value of a scalar with a tag. -/
def scalarValue (tag : Tag) (content : String) : Except Refusal Value :=
  match tag with
  | .null => .ok .null
  | .text => .ok (.text content)
  | .bool =>
    let word := Text.lower content
    if ["yes", "true", "on"].contains word then .ok (.bool true)
    else if ["no", "false", "off"].contains word then .ok (.bool false)
    else .error (.fault (.missingKey (Text.quoted word)))
  | .int => refusing (readInt content)
  | .float => refusing (readFloat content)
  | .timestamp =>
    match timestamp? 1 (withoutBreak content.toList) with
    | some t => refusing t.toValue
    | none => .error (.fault .noTimestamp)
  | .binary =>
    if content.toList.any (128 ≤ ·.toNat) then .error .malformed
    else
      match Text.decodeBase64? content.toList with
      | some data => .ok (.bytes data)
      | none => .error .malformed
  | _ => .error .malformed

end Lineage.Yaml
