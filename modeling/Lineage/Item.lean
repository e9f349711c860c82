import Lineage.Value

namespace Lineage

/-- The item came into being in version `since`. A value that is converted up to that version gets
what the supplier gives, or else the default value. A variant goes down to its fallback. -/
structure Addition where
  since : String
  supplier : Option String
  default : Option Value
  fallback : Option String
  deriving Repr

/-- The item got a new name, a new type or both in version `since`. -/
structure Change where
  since : String
  fromName : Option String
  fromType : Option String
  upgradeWith : Option String
  downgradeWith : Option String
  deriving DecidableEq, Repr

/-- The item was deprecated in version `since`. -/
structure Deprecation where
  since : String
  note : Option String
  deriving DecidableEq, Repr

/-- How an item holds values of its type. -/
inductive Hint where
  | option
  | list
  deriving DecidableEq, Repr

/-- A field or a variant of a container, as it is in the latest version, with its history. A nested
item holds another container. -/
structure Item where
  name : String
  type : Option String
  doc : Option String
  hint : Option Hint
  nested : Bool
  added : Option Addition
  changes : List Change
  deprecated : Option Deprecation
  deriving Repr

/-- The name of a hint. -/
def Hint.name : Hint → String
  | .option => "option"
  | .list => "list"

/-- Whether anything ever happened to the item. -/
def Item.hasHistory (item : Item) : Bool :=
  item.added.isSome || !item.changes.isEmpty || item.deprecated.isSome

end Lineage
