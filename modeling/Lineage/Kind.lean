import Lineage.Text.Cut

namespace Lineage

/-- A struct holds named fields, and an enum holds variants. -/
inductive Kind where
  | struct
  | enum
  deriving DecidableEq, Repr

namespace Kind

/-- The name of a kind in descriptions. -/
def name : Kind → String
  | .struct => "struct"
  | .enum => "enum"

/-- The kind of a name. -/
def ofName? (name : String) : Option Kind :=
  if name = "struct" then some .struct else if name = "enum" then some .enum else none

/-- What the items of a container of the kind are called. -/
def itemLabel : Kind → String
  | .struct => "field"
  | .enum => "variant"

/-- The mark at the start of the name of a deprecated item. -/
def mark : Kind → String
  | .struct => "deprecated_"
  | .enum => "Deprecated"

/-- Whether a name starts with the mark. -/
def isMarked (kind : Kind) (name : String) : Bool :=
  (Text.dropPrefix? kind.mark.toList name.toList).isSome

/-- A name without the mark at its start, if it has one. -/
def unmark (kind : Kind) (name : String) : String :=
  match Text.dropPrefix? kind.mark.toList name.toList with
  | some rest => String.ofList rest
  | none => name

end Kind

end Lineage
