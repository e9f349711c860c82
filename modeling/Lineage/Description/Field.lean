import Lineage.Description.Issue
import Lineage.Text.Utf8
import Lineage.Value.Key
import Lineage.Value.Literal

namespace Lineage.Description

/-- Reads a text. -/
def text : Value → Checked String
  | .text s => .good s
  | .bytes data =>
    match Text.decodeUtf8 data with
    | .ok s => .good s
    | .error _ => .issue .encoding
  | _ => .issue .text

/-- Reads what may be null. -/
def nullable {α : Type} (read : Value → Checked α) : Value → Checked (Option α)
  | .null => .good none
  | v => (read v).map some

/-- The truth value that a word stands for. -/
def truthWord? (word : String) : Option Bool :=
  let word := word.map Char.toLower
  if ["0", "off", "f", "false", "n", "no"].contains word then some false
  else if ["1", "on", "t", "true", "y", "yes"].contains word then some true
  else none

/-- Whether a text holds half of a surrogate pair. Where its characters count it is refused. -/
def hasHalf (s : String) : Bool :=
  s.toList.any fun c => (Text.half? c).isSome

/-- Reads one of several words by what it stands for; `kind` is the issue of another word. -/
def word {α : Type} (kind : IssueKind) (meaning? : String → Option α) (s : String) : Checked α :=
  if hasHalf s then .issue .encoding else (meaning? s).elim (.issue kind) .good

/-- The number that may stand for a truth value. Integers have 64 bits, and floats lie between the
greatest and the least of those. -/
def truthNumber? (v : Value) : Option Int :=
  let bound : Int := Nat.pow 2 63
  v.wholeNumber?.filter fun n =>
    if v.asInt?.isSome then -bound ≤ n && n < bound else -bound < n && n < bound

/-- Reads a truth value, which may also be written as a number or a word. -/
def truth (v : Value) : Checked Bool :=
  match v with
  | .bool b => .good b
  | .text s => word .truthText truthWord? s
  | .bytes data => ((Text.decodeUtf8 data).toOption.bind truthWord?).elim (.issue .truthText) .good
  | v =>
    match truthNumber? v with
    | some n => if n = 0 then .good false else if n = 1 then .good true else .issue .truthText
    | none => .issue .truth

/-- Reads the items of a list. -/
def items {α : Type} (read : Value → Checked α) (index : Nat) : List Value → Checked (List α)
  | [] => .good []
  | v :: rest => .both (((read v).inside (.index index)).map List.cons) (items read (index + 1) rest)

/-- Reads a list. -/
def list {α : Type} (read : Value → Checked α) : Value → Checked (List α)
  | .list vs | .tuple vs | .set vs => items read 0 vs
  | _ => .issue .list

/-- The entries of a record. -/
abbrev Fields := Entries Value Value

/-- Reads a field that must be there. -/
def required {α : Type} (fields : Fields) (name : String) (read : Value → Checked α) : Checked α :=
  match Value.member? fields name with
  | some v => (read v).inside (.name name)
  | none => (Checked.issue .missing).inside (.name name)

/-- Reads a field that may be left out. -/
def optional {α : Type} (fields : Fields) (name : String) (absent : α) (read : Value → Checked α) :
    Checked α :=
  match Value.member? fields name with
  | some v => (read v).inside (.name name)
  | none => .good absent

/-- Reads a field that may be left out or null. -/
def optionalText (fields : Fields) (name : String) : Checked (Option String) :=
  optional fields name none (nullable text)

/-- Reads a truth value that is false when it is left out. -/
def flag (fields : Fields) (name : String) : Checked Bool :=
  optional fields name false truth

/-- The place of a key that is not a text: an integer of 64 bits, or else a literal. -/
def keyPlace (key : Value) : Place :=
  let bound : Int := Nat.pow 2 63
  match key.asInt?.filter fun n => -bound ≤ n && n < bound with
  | some n => .index n
  | none => .name (if key.isTooLong then s!"<unprintable {key.kindName} object>" else key.literal)

/-- The issues of the fields that a record does not have. -/
def surplus (known : List String) (fields : Fields) : List Issue :=
  fields.filterMap fun (key, _) =>
    match key with
    | .text name => if known.contains name then none else some ⟨.surplus, [.name name]⟩
    | other => some ⟨.badKey, [keyPlace other]⟩

/-- Whether the key of an entry is a text that holds half of a surrogate pair. -/
def isBroken : Value × Value → Bool
  | (.text name, _) => hasHalf name
  | _ => false

/-- Reads a record that has no fields but the known ones. A key that is no proper text is the only
issue that counts. -/
def record {α : Type} (known : Fields → List String) (read : Fields → Checked α) :
    Value → Checked α
  | .map fields =>
    if fields.any isBroken then .issue .encoding
    else match surplus (known fields) fields with
    | [] => read fields
    | more => .both ((read fields).map fun a _ => a) (.bad more : Checked Unit)
  | _ => .issue .record

end Lineage.Description
