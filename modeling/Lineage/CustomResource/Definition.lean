import Lineage.Definition.Schema
import Lineage.Generation
import Lineage.Text.LowerCase

namespace Lineage.CustomResource

/-- The version of the interface that custom resources are defined in. -/
def apiVersion : String := "apiextensions.k8s.io/v1"

/-- How a container is served, if it can be: it must say so, and it must be a struct. -/
def optionsOf (g : Generation) : Except Failure ResourceOptions :=
  match g.validated.container.resource with
  | none => .error (.invalid g.name [.resourceMissing])
  | some options =>
    if g.kind = .struct then .ok options else .error (.invalid g.name [.resourceNotStruct])

/-- The names of a custom resource. -/
structure Names where
  kind : String
  plural : String
  singular : String
  shortNames : List String
  deriving DecidableEq, Repr

/-- The names of a container as a custom resource. -/
def namesOf (g : Generation) : Except Failure Names := do
  let options ← optionsOf g
  let kind := (filled? options.kind).getD g.name
  return ⟨kind, (filled? options.plural).getD (Text.lower kind ++ "s"),
    (filled? options.singular).getD (Text.lower kind), options.shortNames⟩

/-- The names as a document. -/
def Names.document (n : Names) : Document :=
  let short := if n.shortNames.isEmpty then [] else [("shortNames", Document.texts n.shortNames)]
  .map ([("kind", .text n.kind), ("plural", .text n.plural), ("singular", .text n.singular)] ++ short)

/-- The schema of the status of a resource in which dropped values are recorded. -/
def statusSchema : Document :=
  let entry := Document.map [("type", .text "object"),
    ("properties", .map [("jsonPath", .map [("type", .text "string")]),
      ("value", .map [preserving])]),
    ("required", .texts ["jsonPath"])]
  .map [("type", .text "object"),
    ("properties", .map [("changedValues", .map [("type", .text "array"), ("items", entry)])]),
    preserving]

/-- The schema of a resource in a version. -/
def versionSchema (track : Bool) (d : Definition) : Except Fault Document := do
  let status := if track then [("status", statusSchema)] else []
  return .map [("type", .text "object"),
    ("properties", .map (("spec", ← d.schemaDocument) :: status)), ("required", .texts ["spec"])]

/-- A version of a custom resource; exactly the one that is stored says so. -/
def versionDocument (track : Bool) (storage : Release) (d : Definition) : Except Fault Document := do
  let r := d.release
  let deprecation := (r.note.map fun note =>
    [("deprecated", Document.flag true), ("deprecationWarning", .text note)]).getD []
  let subresources := if track then [("subresources", Document.map [("status", .map [])])] else []
  return .map ([("name", .text r.name), ("served", .flag true),
    ("storage", .flag (r.name == storage.name)),
    ("schema", .map [("openAPIV3Schema", ← versionSchema track d)])] ++ deprecation ++ subresources)

/-- How the versions are converted into each other: by a webhook if there is one. -/
def conversionDocument (webhook : Option String) : Document :=
  match filled? webhook with
  | some url =>
    .map [("strategy", .text "Webhook"),
      ("webhook", .map [("conversionReviewVersions", .texts ["v1"]),
        ("clientConfig", .map [("url", .text url)])])]
  | none => .map [("strategy", .text "None")]

/-- The definition of a container as a custom resource with all its versions. The stored version is
the one that is asked for, or the one that the container names, or the latest. -/
def document (g : Generation) (storageVersion webhook : Option String) (track : Bool) :
    Except Failure Document := do
  let options ← optionsOf g
  let latest := (g.timeline.latest?.map (·.name)).getD ""
  let storage ← g.timeline.get
    ((filled? storageVersion <|> filled? options.storageVersion).getD latest)
  let names ← namesOf g
  let versions ← g.definitions.mapM fun d => do return ← versionDocument track storage d
  let scope := if options.namespaced then "Namespaced" else "Cluster"
  return .map [("apiVersion", .text apiVersion), ("kind", .text "CustomResourceDefinition"),
    ("metadata", .map [("name", .text s!"{names.plural}.{options.group}")]),
    ("spec", .map [("group", .text options.group), ("names", names.document),
      ("scope", .text scope), ("versions", .list versions),
      ("conversion", conversionDocument webhook)])]

end Lineage.CustomResource
