import Lineage.Entries
import Lineage.Number.Binary
import Lineage.Value.Calendar

namespace Lineage.Value

/-- The integer that a truth value or an integer stands for. -/
def asInt? : Value → Option Int
  | .bool b => some (if b then 1 else 0)
  | .int n => some n
  | _ => none

/-- The integer that a number is equal to. -/
def wholeNumber? : Value → Option Int
  | .float x => (Number.Binary.ofFloat? x).bind fun b => if b.isWhole then some b.truncate else none
  | v => v.asInt?

/-- Whether two values are the same key. Numbers are compared by their value, whatever their kind. -/
def sameKey : Value → Value → Bool
  | .null, .null => true
  | .text a, .text b => a == b
  | .bytes a, .bytes b => a == b
  | .date a, .date b => a == b
  | .moment a, .moment b => a.isSame b
  | .tuple as, .tuple bs => sameKeys as bs
  | .float a, .float b => a == b
  | a, b => match a.wholeNumber?, b.wholeNumber? with
    | some m, some n => m == n
    | _, _ => false
where
  /-- Whether two lists hold the same keys at the same places. -/
  sameKeys : List Value → List Value → Bool
    | [], [] => true
    | a :: as, b :: bs => a.sameKey b && sameKeys as bs
    | _, _ => false

instance : BEq Value := ⟨sameKey⟩

@[simp] theorem text_beq_text (a b : String) : (Value.text a == Value.text b) = (a == b) := by
  simp only [BEq.beq, sameKey]

/-- The entry of a map at a text key. -/
def member? (entries : Entries Value Value) (name : String) : Option Value :=
  Entries.get? entries (.text name)

/-- The value under a text key of a map. -/
def get? : Value → String → Option Value
  | .map entries, name => member? entries name
  | _, _ => none

/-- A text that may be missing. -/
def ofText? (s : Option String) : Value :=
  (s.map .text).getD .null

/-- A map with text keys. -/
def object (entries : List (String × Value)) : Value :=
  .map (entries.map fun (name, v) => (.text name, v))

/-- A number in multiples of the least positive float; infinities and NaN have no such multiple. -/
def scaled? : Value → Option Int
  | .float x => (Number.Binary.ofFloat? x).map fun b =>
    let size : Int := b.mantissa * Nat.pow 2 (b.exponent + 1074).toNat
    if b.negative then -size else size
  | v => v.asInt?.map (· * Nat.pow 2 1074)

/-- Whether a value is a number. -/
def isNumber : Value → Bool
  | .bool _ | .int _ | .float _ => true
  | _ => false

end Lineage.Value
