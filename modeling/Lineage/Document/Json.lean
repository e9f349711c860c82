import Lineage.Document
import Lineage.Json.Writer

namespace Lineage.Document

/-- The start of a new line with spaces before its first character. -/
def newLine (indent : Nat) : String :=
  "\n" ++ String.ofList (List.replicate indent ' ')

/-- The text of a document in JSON, in which what lists and maps hold stands on lines of its own, two
columns to the right. -/
def json (indent : Nat) : Document → String
  | .flag b => if b then "true" else "false"
  | .text s => Json.textLiteral s
  | .list [] => "[]"
  | .list items => "[" ++ jsonItems (indent + 2) "" items ++ newLine indent ++ "]"
  | .map [] => "\x7b\x7d"
  | .map entries => "\x7b" ++ jsonEntries (indent + 2) "" entries ++ newLine indent ++ "\x7d"
where
  /-- The text of items, `lead` before the first and commas before the others. -/
  jsonItems (indent : Nat) (lead : String) : List Document → String
    | [] => ""
    | d :: rest => lead ++ newLine indent ++ d.json indent ++ jsonItems indent "," rest
  /-- The text of entries, `lead` before the first and commas before the others. -/
  jsonEntries (indent : Nat) (lead : String) : List (String × Document) → String
    | [] => ""
    | (k, d) :: rest =>
      lead ++ newLine indent ++ Json.textLiteral k ++ ": " ++ d.json indent
        ++ jsonEntries indent "," rest

/-- The text of a document in JSON, with a line feed at its end. -/
def toJson (d : Document) : String :=
  d.json 0 ++ "\n"

end Lineage.Document
