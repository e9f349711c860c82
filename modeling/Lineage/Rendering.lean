import Lineage.Bundle
import Lineage.Code.Module
import Lineage.Definition.Schema
import Lineage.Document.Json
import Lineage.Yaml.Writer

namespace Lineage

/-- The formats of rendered files: the text of a module, or schemas. -/
inductive Format where
  | python
  | yaml
  | json
  deriving DecidableEq, Repr

/-- Files by their paths. -/
abbrev Files := Entries String String

namespace Format

/-- The name of a format, which is the ending of the names of its files too. -/
def name : Format → String
  | python => "python"
  | yaml => "yaml"
  | json => "json"

/-- The formats, in the order in which they are listed. -/
def all : List Format :=
  [python, yaml, json]

/-- The names of formats in a list. -/
def listed (formats : List Format) : String :=
  String.intercalate ", " (formats.map name)

/-- The format of a name, however it is capitalised. -/
def ofName (s : String) : Except Fault Format :=
  let name := Text.lower s
  if name == "python" || name == "py" then .ok python
  else if name == "yaml" || name == "yml" then .ok yaml
  else if name == "json" then .ok json
  else
    let literal := Text.quoted name
    .error (.unknownChoice s!"unsupported render format {literal} (expected one of {listed all})")

/-- The format of schemas of a name, which is YAML if none is given. -/
def ofSchemaName (s : Option String) : Except Fault Format :=
  let name := Text.lower ((filled? s).getD "yaml")
  if name == "yaml" || name == "yml" then .ok yaml
  else if name == "json" then .ok json
  else
    let literal := Text.quoted name
    .error (.unknownChoice
      s!"unsupported schema format {literal} (expected one of {listed [yaml, json]})")

/-- The text of a document. -/
def write (format : Format) (d : Document) : String :=
  match format with
  | json => d.toJson
  | _ => Yaml.toText d

/-- The files of a container: one module, or one schema for each version. -/
def render (format : Format) (g : Generation) : Except Failure Files := do
  let base := Text.snakeCase g.name
  match format with
  | python => return [(base ++ ".py", ← Code.moduleText g)]
  | _ =>
    g.definitions.mapM fun d => do
      return (s!"{base}/{d.release.name}.{format.name}", format.write (← d.document))

/-- The files of all containers of a bundle that were generated, in alphabetical order of their
names. -/
def renderBundle (format : Format) (r : BundleResult) : Except Failure Files := do
  let sorted := r.results.mergeSort fun a b => Text.inOrder a.1 b.1
  let files ← sorted.mapM fun (_, g) => format.render g
  return files.foldl Entries.putAll []

end Format

end Lineage
