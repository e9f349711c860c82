import Lineage.Yaml.Plain

namespace Lineage.Yaml

/-- What a node stands for. -/
inductive Tag where
  | null
  | bool
  | int
  | float
  | binary
  | timestamp
  | omap
  | pairs
  | set
  | text
  | sequence
  | mapping
  | merge
  | default
  | other (name : String)
  deriving DecidableEq, Repr

/-- The address in which the names of the common tags begin. -/
def commonAddress : String := "tag:yaml.org,2002:"

/-- A tag by its name. -/
def Tag.ofName (name : String) : Tag :=
  let common := fun short => commonAddress ++ short
  if name == common "null" then .null
  else if name == common "bool" then .bool
  else if name == common "int" then .int
  else if name == common "float" then .float
  else if name == common "binary" then .binary
  else if name == common "timestamp" then .timestamp
  else if name == common "omap" then .omap
  else if name == common "pairs" then .pairs
  else if name == common "set" then .set
  else if name == common "str" then .text
  else if name == common "seq" then .sequence
  else if name == common "map" then .mapping
  else if name == common "merge" then .merge
  else if name == common "value" then .default
  else .other name

/-- The tag of a plain scalar by its form. -/
def Form.tag : Form → Tag
  | .text => .text
  | .null => .null
  | .truth => .bool
  | .integer => .int
  | .float => .float
  | .timestamp => .timestamp
  | .merge => .merge
  | .default => .default
  | .reserved => .other (commonAddress ++ "yaml")

/-- Whether what a tag stands for is a collection. -/
def Tag.isCollection : Tag → Bool
  | .omap | .pairs | .set | .sequence | .mapping => true
  | _ => false

/-- Whether what a tag stands for is read from a text. -/
def Tag.isScalar : Tag → Bool
  | .null | .bool | .int | .float | .binary | .timestamp | .text => true
  | _ => false

/-- What a node holds. The nodes in it are given by their places in the document. -/
inductive Content where
  | scalar (content : String)
  | sequence (items : List Nat)
  | mapping (entries : List (Nat × Nat))
  deriving DecidableEq, Repr

/-- A part of a document. -/
structure Node where
  tag : Tag
  content : Content
  deriving DecidableEq, Repr

/-- A scalar that is not written. -/
def Node.empty : Node := ⟨.null, .scalar ""⟩

/-- A document as a graph: its nodes, and the place of the outermost. A node that has an anchor can
stand in several nodes, and even in itself. -/
structure Graph where
  nodes : Array Node
  root : Nat
  deriving DecidableEq, Repr

end Lineage.Yaml
