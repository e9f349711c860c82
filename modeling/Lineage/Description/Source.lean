import Lineage.Description.Reader
import Lineage.Failure
import Lineage.FileTree
import Lineage.Json.Reader
import Lineage.Yaml.Reader

namespace Lineage.Description

/-- The mapping that the text from a source holds. -/
def asMapping (source : String) : Value → Except Failure Value
  | .map entries => .ok (.map entries)
  | data => .error (.description source (.notMapping data.kindName))

/-- Reads a text as JSON or, where it is none, as YAML. The text must hold a mapping; `source` names
it in failures. -/
def parse (source text : String) : Except Failure Value := do
  let data ← match Json.read text with
    | .ok data => pure data
    | .error (.tooLong digits) => throw (.fault (.digitsRead digits))
    | .error (.tooDeep kind) =>
      throw (.fault (.tooDeep s!" while decoding a JSON {kind.name} from a unicode string"))
    | .error (.malformed _) =>
      match Yaml.read text with
      | .ok data => pure data
      | .error .malformed => throw (.description source .unparsed)
      | .error (.fault cause) => throw (.fault cause)
  asMapping source data

/-- Whether a description is about a bundle of containers. -/
def isBundle (data : Value) : Bool :=
  (data.get? "containers").isSome

/-- What a mapping describes; `title` names what that should be. -/
def accept {α : Type} (title path : String) (found : Checked α) : Except Failure α :=
  match found with
  | .good a => .ok a
  | .bad issues => .error (.description path (.rejected title issues))

/-- The container that a mapping describes. -/
def acceptContainer (path : String) (data : Value) : Except Failure Container :=
  accept "ContainerSpec" path (container data)

/-- The bundle that a mapping describes. -/
def acceptBundle (path : String) (data : Value) : Except Failure Bundle :=
  accept "ModuleSpec" path (bundle data)

/-- The mapping in the file at a path. -/
def parseFile (t : FileTree) (p : FilePath) : Except Failure Value := do
  match t.read p with
  | .error (.file reason literal) =>
    throw (.description p.text (.unreadable (Fault.file reason literal).message))
  | .error cause => throw (.fault cause)
  | .ok data => parse p.text (← textOfBytes data)

/-- The container that the file at a path describes. -/
def loadContainer (t : FileTree) (path : String) : Except Failure Container := do
  acceptContainer path (← parseFile t (.ofText path))

/-- The bundle that the file at a path describes. -/
def loadBundle (t : FileTree) (path : String) : Except Failure Bundle := do
  acceptBundle path (← parseFile t (.ofText path))

end Lineage.Description
