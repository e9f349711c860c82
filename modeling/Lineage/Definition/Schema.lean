import Lineage.TypeName.Schema
import Lineage.Definition

namespace Lineage

/-- The schema of a member: of its type, or of lists of it. -/
def Member.schema (m : Member) : Except Fault Schema :=
  return match ← TypeName.schema m.type, m.hint with
    | s, some .list => .array s
    | s, some .option => .nullable s
    | s, none => s

/-- The schema of a member with what else is known of it. -/
def Member.document (m : Member) : Except Fault Document := do
  let description := ((m.doc.filter fun doc => !doc.isEmpty).map fun doc =>
    ("description", Document.text doc)).toList
  let deprecated := if m.deprecated then [("deprecated", Document.flag true)] else []
  return .map ((← m.schema).entries ++ description ++ deprecated)

namespace Definition

/-- The schema of a variant that carries a payload. -/
def variantDocument (m : Member) : Except Fault Document := do
  return .map [("type", .text "object"),
    ("properties", .map [(m.name, (← TypeName.schema m.type).document)]),
    ("required", .texts [m.name]), ("additionalProperties", .flag false)]

/-- The schema of the values of an enum: the names of variants without a payload, or maps. -/
def enumDocument (d : Definition) : Except Fault Document := do
  let units := (d.members.filter fun m => m.type.isNone).map (·.name)
  let names := Document.map [("type", .text "string"), ("enum", .texts units)]
  match d.members.filter fun m => m.type.isSome with
  | [] => return names
  | payloads =>
    let alternatives ← payloads.mapM variantDocument
    return .map [("oneOf", .list ((if units.isEmpty then [] else [names]) ++ alternatives))]

/-- The schema of the values of a struct: maps, in which optional fields may be left out. -/
def structDocument (d : Definition) : Except Fault Document := do
  let properties ← d.members.mapM fun m => do return (m.name, ← m.document)
  let names := (d.members.filter fun m => m.hint != some .option).map (·.name)
  let required := if names.isEmpty then [] else [("required", Document.texts names)]
  let description := ((d.doc.filter fun doc => !doc.isEmpty).map fun doc =>
    ("description", Document.text doc)).toList
  return .map ([("type", .text "object"), ("properties", .map properties)] ++ required ++ description)

/-- The schema of the values of a container in a version. -/
def schemaDocument (d : Definition) : Except Fault Document :=
  match d.kind with
  | .enum => d.enumDocument
  | .struct => d.structDocument

/-- The document of a version: its name, its deprecation, its documentation and its schema. -/
def document (d : Definition) : Except Fault Document := do
  let r := d.release
  let note := (r.note.map fun note => ("deprecationNote", Document.text note)).toList
  let docs := if r.docs.isEmpty then [] else [("docs", Document.texts r.docs)]
  return .map ([("container", .text d.container), ("kind", .text d.kind.name),
    ("version", .text r.name), ("deprecated", .flag r.deprecated)] ++ note ++ docs
      ++ [("schema", ← d.schemaDocument)])

end Definition

end Lineage
