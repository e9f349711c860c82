import Lineage.Document
import Lineage.Entries

namespace Lineage

/-- The types of single values. -/
inductive Scalar where
  | string
  | integer
  | number
  | boolean
  | binary
  | moment
  | day
  deriving DecidableEq, Repr

/-- What values of a type look like. Of a record nothing else is known. -/
inductive Schema where
  | any
  | scalar (type : Scalar)
  | array (items : Schema)
  | mapping (values : Schema)
  | record
  | nullable (inner : Schema)
  deriving DecidableEq, Repr

/-- The entries of the schema of single values. -/
def Scalar.entries : Scalar → List (String × Document)
  | string => [("type", .text "string")]
  | integer => [("type", .text "integer")]
  | number => [("type", .text "number")]
  | boolean => [("type", .text "boolean")]
  | binary => [("type", .text "string"), ("format", .text "byte")]
  | moment => [("type", .text "string"), ("format", .text "date-time")]
  | day => [("type", .text "string"), ("format", .text "date")]

/-- The entry of a schema that lets unknown fields pass. -/
def preserving : String × Document :=
  ("x-kubernetes-preserve-unknown-fields", .flag true)

namespace Schema

/-- The entries of a schema. That null is allowed is said once. -/
def entries : Schema → List (String × Document)
  | any => [preserving]
  | scalar type => type.entries
  | array items => [("type", .text "array"), ("items", .map items.entries)]
  | mapping values => [("type", .text "object"), ("additionalProperties", .map values.entries)]
  | record => [("type", .text "object"), preserving]
  | nullable inner => Entries.put inner.entries "nullable" (.flag true)

/-- A schema as a document. -/
def document (s : Schema) : Document :=
  .map s.entries

end Schema

end Lineage
