import Lineage.Container
import Lineage.Description.Issue
import Lineage.Value.Key

namespace Lineage.Description

/-- A part of a description that may be missing, as data. -/
def partValue {α : Type} (write : α → Value) (part : Option α) : Value :=
  (part.map write).getD .null

/-- The mark of a deprecated version as data. -/
def markValue : VersionMark → Value
  | .flag on => .bool on
  | .note text => .text text

/-- The declaration of a version as data. -/
def declarationValue (d : Declaration) : Value :=
  .object [("name", .text d.name), ("deprecated", partValue markValue d.deprecated),
    ("skip_from", .bool d.skipFrom), ("doc", .ofText? d.doc)]

/-- An addition as data. -/
def additionValue (a : Addition) : Value :=
  .object [("since", .text a.since), ("default", .ofText? a.supplier),
    ("default_value", a.default.getD .null), ("downgrade_fallback", .ofText? a.fallback)]

/-- A change as data. -/
def changeValue (c : Change) : Value :=
  .object [("since", .text c.since), ("from_name", .ofText? c.fromName),
    ("from_type", .ofText? c.fromType), ("upgrade_with", .ofText? c.upgradeWith),
    ("downgrade_with", .ofText? c.downgradeWith)]

/-- A deprecation as data. -/
def deprecationValue (d : Deprecation) : Value :=
  .object [("since", .text d.since), ("note", .ofText? d.note)]

/-- An item as data. -/
def itemValue (i : Item) : Value :=
  .object [("name", .text i.name), ("type", .ofText? i.type), ("doc", .ofText? i.doc),
    ("hint", .ofText? (i.hint.map Hint.name)), ("nested", .bool i.nested),
    ("added", partValue additionValue i.added), ("changes", .list (i.changes.map changeValue)),
    ("deprecated", partValue deprecationValue i.deprecated)]

/-- Options as data. -/
def optionsValue (o : Options) : Value :=
  .object [("allow_unsorted", .bool o.allowUnsorted), ("skip_from", .bool o.skipFrom)]

/-- Options of a custom resource as data. -/
def resourceOptionsValue (o : ResourceOptions) : Value :=
  .object [("group", .text o.group), ("kind", .ofText? o.kind),
    ("plural", .ofText? o.plural), ("singular", .ofText? o.singular),
    ("namespaced", .bool o.namespaced), ("storage_version", .ofText? o.storageVersion),
    ("shortnames", .list (o.shortNames.map .text))]

/-- A container as data. -/
def containerValue (c : Container) : Value :=
  .object [("name", .text c.name), ("kind", .text c.kind.name), ("doc", .ofText? c.doc),
    ("versions", .list (c.versions.map declarationValue)), ("items", .list (c.items.map itemValue)),
    ("options", optionsValue c.options), ("k8s", partValue resourceOptionsValue c.resource)]

/-- A bundle as data. -/
def bundleValue (b : Bundle) : Value :=
  .object [("name", .text b.name), ("versions", .list (b.versions.map declarationValue)),
    ("containers", .list (b.containers.map containerValue)), ("options", optionsValue b.options)]

/-- A place as data. -/
def placeValue : Place → Value
  | .name s => .text s
  | .index n => .int n

/-- An issue as data. -/
def issueValue (i : Issue) : Value :=
  .object [("type", .text i.kind.code), ("loc", .list (i.place.map placeValue))]

end Lineage.Description
