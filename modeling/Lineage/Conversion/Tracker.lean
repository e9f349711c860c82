import Lineage.Value.Mapping
import Lineage.Value.Order

namespace Lineage

/-- The values that were dropped on the way to an older version, by their paths. -/
structure Tracker where
  values : Entries Value Value
  deriving Repr

namespace Tracker

/-- Nothing was dropped. -/
def empty : Tracker :=
  ⟨[]⟩

/-- Records a dropped value. -/
def record (t : Tracker) (path v : Value) : Tracker :=
  ⟨Entries.put t.values path v⟩

/-- The value at a path. -/
def get? (t : Tracker) (path : Value) : Option Value :=
  Entries.get? t.values path

/-- The tracker without the value at a path. -/
def erase (t : Tracker) (path : Value) : Tracker :=
  ⟨Entries.erase t.values path⟩

/-- The recorded values in the order of their paths, as data. -/
def toValue (t : Tracker) : Except Fault Value := do
  let entries ← sorted (fun a b : Value × Value => a.1.less b.1) t.values
  return .list (entries.map fun (path, v) => .object [("jsonPath", path), ("value", v)])

/-- Records the entries of a list that have a path. -/
def load (t : Tracker) : List Value → Except Fault Tracker
  | [] => .ok t
  | entry :: rest => do
    if ← entry.holds "jsonPath" then
      let path ← entry.item (.text "jsonPath")
      path.checkKey
      (t.record path ((entry.get? "value").getD .null)).load rest
    else t.load rest

/-- The tracker of recorded values as data; there are none in what counts as false. -/
def ofValue (v : Value) : Except Fault Tracker := do
  if v.truthy then empty.load (← v.elements) else return empty

end Tracker

end Lineage
