import Lineage.Command.Arguments
import Lineage.Description.Source
import Lineage.Settings

namespace Lineage

namespace Failure

/-- Whether the text of a failure is only its beginning. -/
def isAbridged : Failure → Bool
  | .description _ .unparsed | .description _ (.rejected _ _) => true
  | _ => false

end Failure

/-- What the command does: its exit code, whether only its usage is at fault, what it prints, what it
complains about, and the files that it writes into a folder. -/
structure Report where
  code : Nat
  usage : Bool
  output : String
  errors : String
  written : List (FilePath × String)
  deriving DecidableEq, Repr

namespace Command

/-- What is rendered: complaints about containers that failed, and files. -/
structure Rendered where
  complaints : List String
  files : Except Failure Files

/-- A line that tells of a failure; it stays open where the text of the failure goes on. -/
def complaint (f : Failure) : String :=
  let ending := if f.isAbridged then "" else "\n"
  s!"ERROR: {f.message}{ending}"

/-- What is rendered from the description of a bundle. The complaints are in alphabetical order. -/
def renderBundle (format : Format) (b : Bundle) : Rendered :=
  match b.generate.complete with
  | .error failure => ⟨[], .error failure⟩
  | .ok result =>
    let failures := result.failures.mergeSort fun a b => Text.inOrder a.1 b.1
    ⟨failures.map fun (name, f) => s!"ERROR: {name}: {f.message}\n", format.renderBundle result⟩

/-- What is rendered from a mapping that describes a container or a bundle. -/
def renderData (format : Format) (path : String) (data : Value) : Rendered :=
  if Description.isBundle data then
    match Description.acceptBundle path data with
    | .ok b => renderBundle format b
    | .error failure => ⟨[], .error failure⟩
  else
    ⟨[], do
      let container ← Description.acceptContainer path data
      format.render (← Generation.ofContainer container)⟩

/-- What is rendered in a format from the text of the file at a path. -/
def render (format path : String) (content : Except Fault (List UInt8)) : Rendered :=
  let source : Except Failure (Format × Value) := do
    let format ← Format.ofName format
    let data ← content
    return (format, ← Description.parse path (← textOfBytes data))
  match source with
  | .ok (format, data) => renderData format path data
  | .error failure => ⟨[], .error failure⟩

/-- What is printed of files that are not written. -/
def printed (files : Files) : String :=
  String.join (files.map fun (name, content) => s!"# --- {name}\n{content}\n")

/-- The files in a folder. -/
def inFolder (folder : String) (files : Files) : List (FilePath × String) :=
  files.map fun (name, content) => ((FilePath.ofText folder).join (FilePath.ofText name), content)

/-- What is printed of files that are written. -/
def announced (files : List (FilePath × String)) : String :=
  String.join (files.map fun (path, _) => s!"Wrote: {path.text}\n")

/-- The bytes of a file that is written. -/
def contentBytes (content : String) : Except Fault (List UInt8) :=
  (Text.encodeUtf8 content).mapError fun halves => .badText halves.message

/-- Writes files one after the other. -/
def writeAll (tree : FileTree) (files : List (FilePath × String)) : Except Fault FileTree :=
  files.foldlM (fun tree (path, content) => do
    let opened ← tree.write path []
    opened.write path (← contentBytes content)) tree

/-- How the command is called. -/
def usageLine : String :=
  let formats := Format.listed Format.all
  s!"usage: render_container [-h] [--format FORMAT] [--out OUT] file\nFORMAT is one of {formats}\n"

/-- The report of a command whose arguments are at fault, or that asks for help. -/
def usageReport : Usage → Report
  | .help => ⟨0, true, "", usageLine, []⟩
  | .wrong => ⟨2, true, "", usageLine, []⟩

/-- The report of a command whose file is missing. -/
def missingReport (p : FilePath) : Report :=
  ⟨2, false, "", s!"ERROR: {p.text} missing\n", []⟩

/-- The report of what was rendered. A failure that is not about the description is no report. -/
def report (output : Output) (r : Rendered) : Except Failure Report :=
  let errors := String.join r.complaints
  match r.files, output with
  | .error failure, _ =>
    if failure.isDomain then .ok ⟨1, false, "", errors ++ complaint failure, []⟩ else .error failure
  | .ok files, .printed => .ok ⟨0, false, printed files, errors, []⟩
  | .ok files, .folder path =>
    let written := inFolder path files
    .ok ⟨0, false, announced written, errors, written⟩
  | .ok _, .unnamed => .error (.fault (.noPath "list"))

/-- The report on a file: whether there is one, and its content. -/
def reportOn (settings : Settings) (a : Arguments) (found : Except Fault Bool)
    (content : Except Fault (List UInt8)) : Except Failure Report := do
  settings.checkLogLevel
  let path := FilePath.ofText a.file
  if ← found then report a.output (render a.format path.text content)
  else return missingReport path

/-- Runs the command in a folder: its report, and the files after it. -/
def run (settings : Settings) (tree : FileTree) (arguments : List String) :
    Except Failure (Report × FileTree) :=
  match Arguments.read settings.renderFormat arguments with
  | .error usage => .ok (usageReport usage, tree)
  | .ok a => do
    let path := FilePath.ofText a.file
    let report ← reportOn settings a (tree.has path) (tree.read path)
    return (report, ← writeAll tree report.written)

end Command

end Lineage
