import Lineage.Item
import Lineage.Kind

namespace Lineage

/-- How a version is marked as deprecated: by a flag, or by a note that says why. -/
inductive VersionMark where
  | flag (on : Bool)
  | note (text : String)
  deriving DecidableEq, Repr

/-- The declaration of a version. No conversion is made between a version that says `skipFrom` and
the next one. -/
structure Declaration where
  name : String
  deprecated : Option VersionMark
  skipFrom : Bool
  doc : Option String
  deriving DecidableEq, Repr

/-- The declaration of a version of which only the name is given. -/
def Declaration.named (name : String) : Declaration :=
  ⟨name, none, false, none⟩

/-- The options of a container. -/
structure Options where
  allowUnsorted : Bool
  skipFrom : Bool
  deriving DecidableEq, Repr

/-- Without options, versions must be sorted and all conversions are made. -/
def Options.standard : Options :=
  ⟨false, false⟩

/-- How a container is served as a custom resource. -/
structure ResourceOptions where
  group : String
  kind : Option String
  plural : Option String
  singular : Option String
  namespaced : Bool
  storageVersion : Option String
  shortNames : List String
  deriving DecidableEq, Repr

/-- A versioned record: its versions, and its items with their histories. -/
structure Container where
  name : String
  kind : Kind
  doc : Option String
  versions : List Declaration
  items : List Item
  options : Options
  resource : Option ResourceOptions
  deriving Repr

/-- Containers that share their versions. -/
structure Bundle where
  name : String
  versions : List Declaration
  containers : List Container
  options : Options
  deriving Repr

end Lineage
