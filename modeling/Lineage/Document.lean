import Lineage.Value.Key

namespace Lineage

/-- What is written to files: texts and truth values in lists and maps. -/
inductive Document where
  | flag (b : Bool)
  | text (s : String)
  | list (items : List Document)
  | map (entries : List (String × Document))
  deriving Repr

namespace Document

/-- A list of texts. -/
def texts (items : List String) : Document :=
  .list (items.map .text)

/-- A document as data. -/
def toValue : Document → Value
  | .flag b => .bool b
  | .text s => .text s
  | .list items => .list (itemValues items)
  | .map entries => .map (entryValues entries)
where
  /-- The items of a list as data. -/
  itemValues : List Document → List Value
    | [] => []
    | d :: rest => d.toValue :: itemValues rest
  /-- The entries of a map as data. -/
  entryValues : List (String × Document) → List (Value × Value)
    | [] => []
    | (k, d) :: rest => (.text k, d.toValue) :: entryValues rest

end Document

end Lineage
