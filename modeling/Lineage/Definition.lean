import Lineage.Chain

namespace Lineage

/-- An item as it is in one version. -/
structure Member where
  item : String
  name : String
  type : Option String
  status : String
  deprecated : Bool
  note : Option String
  doc : Option String
  hint : Option Hint
  nested : Bool
  deriving DecidableEq, Repr

/-- A container as it is in one version. -/
structure Definition where
  container : String
  kind : Kind
  release : Release
  members : List Member
  doc : Option String
  deriving DecidableEq, Repr

/-- The member of an item with a status. -/
def Member.ofStatus? (item : Item) (s : Status) : Option Member :=
  s.member?.map fun (name, type) =>
    ⟨item.name, name, type, s.label, s.isDeprecated, s.note, item.doc, item.hint, item.nested⟩

/-- A member as data. -/
def Member.toValue (m : Member) : Value :=
  .object [("item", .text m.item), ("name", .text m.name), ("type", .ofText? m.type),
    ("status", .text m.status), ("deprecated", .bool m.deprecated),
    ("deprecation_note", .ofText? m.note), ("doc", .ofText? m.doc),
    ("hint", .ofText? (m.hint.map Hint.name)), ("nested", .bool m.nested)]

namespace Definition

/-- The definition of a container in a version: the members that are present there, in the order of
declaration. Two members of one name collide. -/
def assemble (v : Validated) (chains : List Chain) (r : Release) : Except Failure Definition := do
  let members ← chains.mapM fun chain => do return Member.ofStatus? chain.item (← chain.statusAt r)
  let members := members.filterMap id
  match repeated (members.map (·.name)) with
  | [] => return ⟨v.container.name, v.container.kind, r, members, v.container.doc⟩
  | names => .error (.collision v.container.name r.name names)

/-- The definitions in all versions. -/
def assembleAll (v : Validated) (chains : List Chain) : Except Failure (List Definition) :=
  v.timeline.releases.mapM (assemble v chains)

/-- The names of the members. -/
def names (d : Definition) : List String :=
  d.members.map (·.name)

/-- The member of a name. -/
def member? (d : Definition) (name : String) : Option Member :=
  d.members.find? fun m => m.name == name

/-- The member of an item. -/
def memberOfItem? (d : Definition) (item : String) : Option Member :=
  d.members.find? fun m => m.item == item

/-- The name of the class of a definition. -/
def className (d : Definition) : String :=
  d.container ++ d.release.version.className

/-- A definition as data. -/
def toValue (d : Definition) : Value :=
  .object [("container", .text d.container), ("kind", .text d.kind.name),
    ("version", .text d.release.name), ("deprecated", .bool d.release.deprecated),
    ("deprecation_note", .ofText? d.release.note),
    ("docs", .list (d.release.docs.map .text)), ("doc", .ofText? d.doc),
    ("members", .list (d.members.map Member.toValue))]

end Definition

end Lineage
