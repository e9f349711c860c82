import Lineage.Number.FloatText
import Lineage.Number.Integer
import Lineage.Text.Quoted
import Lineage.Value.Calendar

namespace Lineage.Value

/-- The literal of a value, with the literals of all that it holds. -/
def literal : Value → String
  | .null => "None"
  | .bool b => if b then "True" else "False"
  | .int n => toString n
  | .float x => Number.floatText x
  | .text s => Text.quoted s
  | .bytes data => Text.quotedBytes data
  | .list items => "[" ++ literals "" items ++ "]"
  | .tuple [v] => "(" ++ v.literal ++ ",)"
  | .tuple items => "(" ++ literals "" items ++ ")"
  | .set [] => "set()"
  | .set items => "\x7b" ++ literals "" items ++ "\x7d"
  | .map entries => "\x7b" ++ entryLiterals "" entries ++ "\x7d"
  | .date day => day.literal
  | .moment time => time.literal
where
  /-- The literals of a list, `lead` before the first and commas before the others. -/
  literals (lead : String) : List Value → String
    | [] => ""
    | v :: rest => lead ++ v.literal ++ literals ", " rest
  /-- The literals of the entries of a map. -/
  entryLiterals (lead : String) : List (Value × Value) → String
    | [] => ""
    | (k, v) :: rest => lead ++ k.literal ++ ": " ++ v.literal ++ entryLiterals ", " rest

/-- Whether a value is or holds an integer that has too many digits to be written. -/
def isTooLong : Value → Bool
  | .int n => Number.digitLimit < Number.digitCount n.natAbs
  | .list items | .tuple items | .set items => anyTooLong items
  | .map entries => anyEntryTooLong entries
  | _ => false
where
  /-- Whether one of the values is too long. -/
  anyTooLong : List Value → Bool
    | [] => false
    | v :: rest => v.isTooLong || anyTooLong rest
  /-- Whether a key or a value of the entries is too long. -/
  anyEntryTooLong : List (Value × Value) → Bool
    | [] => false
    | (k, v) :: rest => k.isTooLong || v.isTooLong || anyEntryTooLong rest

/-- The text of a value: a text stands for itself, days and times are written plainly, and all else
by its literal. -/
def plainText : Value → String
  | .text s => s
  | .date day => day.text
  | .moment time => time.text " "
  | v => v.literal

end Lineage.Value
