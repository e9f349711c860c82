import Lineage.Fault
import Lineage.Number.Integer
import Lineage.Text.Quoted
import Lineage.Version

namespace Lineage

/-- Why a text is not a version. The text, none if there was not even a text, is part of it. -/
inductive VersionFault where
  | unusable (raw : Option String)
  | malformed (raw : Option String)
  | levelMalformed (raw : String)
  | levelUnknown (raw : String)
  | levelTooLong (digits : Nat)
  deriving DecidableEq, Repr

/-- The text of a fault. -/
def VersionFault.message : VersionFault → String
  | .unusable raw => about raw "input is empty, non-ASCII or longer than 63 characters"
  | .malformed raw => about raw "expected v<MAJOR>[alpha<N>|beta<N>]"
  | .levelMalformed raw => about (some raw) "expected alpha<VERSION>|beta<VERSION>"
  | .levelUnknown raw => about (some raw) "unknown level identifier, expected alpha|beta"
  | .levelTooLong digits => (Fault.digitsRead digits).message
where
  /-- A reason why a text is not a version. -/
  about (raw : Option String) (reason : String) : String :=
    let literal := (raw.map Text.quoted).getD "None"
    s!"invalid version {literal}: {reason}"

/-- Whether a character is a small letter of the alphabet. -/
def isSmallLetter (c : Char) : Bool :=
  'a' ≤ c && c ≤ 'z'

/-- The text without one line feed at its end. -/
def dropLineFeed (cs : List Char) : List Char :=
  if cs.getLast? = some '\n' then cs.dropLast else cs

/-- The stage of a name. -/
def Stage.ofName? (name : List Char) : Option Stage :=
  if name = ['a', 'l', 'p', 'h', 'a'] then some .alpha
  else if name = ['b', 'e', 't', 'a'] then some .beta
  else none

/-- Reads a level: small letters, then digits of any script, and perhaps a line feed. -/
def Level.parse (raw : String) : Except VersionFault Level :=
  let cs := dropLineFeed raw.toList
  let name := cs.takeWhile isSmallLetter
  let digits := cs.dropWhile isSmallLetter
  if name.isEmpty || digits.isEmpty || !digits.all Text.isDigit then .error (.levelMalformed raw)
  else match Stage.ofName? name with
    | none => .error (.levelUnknown raw)
    | some stage =>
      if digits.length > Number.digitLimit then .error (.levelTooLong digits.length)
      else .ok ⟨stage, Number.ofDigits (digits.filterMap Text.digitValue?)⟩

/-- Whether a text can stand after the major number: at least two small letters, digits or hyphens,
with no hyphen at either end. -/
def isLevelPart (cs : List Char) : Bool :=
  let solid := fun c : Char => isSmallLetter c || c.isDigit
  2 ≤ cs.length && cs.length ≤ 62 && cs.all (fun c => solid c || c == '-')
    && cs.head?.any solid && cs.getLast?.any solid

/-- Divides a text into a major number and what stands after it. The number takes as many digits as
it can; `digits` are those that it has taken, in reverse. -/
def divideVersion : (digits rest : List Char) → Option (List Char × List Char)
  | digits, [] => some (digits.reverse, [])
  | d :: e :: digits, c :: rest =>
    if isLevelPart (c :: rest) then some ((d :: e :: digits).reverse, c :: rest)
    else divideVersion (e :: digits) (d :: c :: rest)
  | digits, c :: rest => if isLevelPart (c :: rest) then some (digits.reverse, c :: rest) else none

/-- Reads a version. -/
def Version.parse (raw : Option String) : Except VersionFault Version :=
  let cs := Text.trim (raw.getD "").toList
  if cs.isEmpty || cs.any (fun c => 0x80 ≤ c.toNat) || cs.length > 63 then .error (.unusable raw)
  else match cs with
    | 'v' :: body =>
      let digits := body.takeWhile Char.isDigit
      if digits.isEmpty then .error (.malformed raw)
      else match divideVersion digits.reverse (body.dropWhile Char.isDigit) with
        | none => .error (.malformed raw)
        | some (major, level) => do
          let number := Number.ofDigits (major.filterMap Text.digitValue?)
          if level.isEmpty then return ⟨number, none⟩
          return ⟨number, some (← Level.parse (String.ofList level))⟩
    | _ => .error (.malformed raw)

/-- Sorts by the versions that texts write. All texts are read first, one after the other. -/
def Version.sortBy {α : Type} (text : α → Option String) (xs : List α) : Except VersionFault (List α) := do
  let read ← xs.mapM fun x => do return (x, ← Version.parse (text x))
  return (ascending read).map (·.1)

end Lineage
