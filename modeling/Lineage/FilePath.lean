import Lineage.Fault
import Lineage.Text.Cut
import Lineage.Text.Utf8

namespace Lineage

/-- A path: the slashes at its start, and the names of folders and of a file at its end. -/
structure FilePath where
  root : String
  names : List String
  deriving DecidableEq, Repr

namespace FilePath

/-- Reads a path. Repeated slashes and the names of the same folder say nothing. -/
def ofText (s : String) : FilePath :=
  let slashes := (s.toList.takeWhile (· == '/')).length
  let root := if slashes = 0 then "" else if slashes = 2 then "//" else "/"
  let names := (Text.pieces '/' s.toList).map String.ofList
  ⟨root, names.filter fun name => name != "" && name != "."⟩

/-- The text of a path. -/
def text (p : FilePath) : String :=
  if p.root.isEmpty && p.names.isEmpty then "." else p.root ++ String.intercalate "/" p.names

/-- A path that starts at the end of another, unless it has a root of its own. -/
def join (p q : FilePath) : FilePath :=
  if q.root.isEmpty then ⟨p.root, p.names ++ q.names⟩ else q

/-- The folder of a path. -/
def parent (p : FilePath) : FilePath :=
  { p with names := p.names.dropLast }

/-- The most bytes in a path. -/
def sizeLimit : Nat := 4095

/-- The most bytes in a name. -/
def nameLimit : Nat := 255

/-- The number of bytes of a name. -/
def nameSize (name : String) : Nat :=
  (name.toList.flatMap Text.nameBytes).length

/-- A fault of the file at a path. -/
def fault (p : FilePath) (reason : FileReason) : Fault :=
  .file reason (Text.quoted p.text)

/-- Checks that a path can be asked for: it can be encoded, without a zero byte. -/
def check (p : FilePath) : Except Fault Unit :=
  match Text.encodeName p.text with
  | .error halves => .error (.badText halves.message)
  | .ok data => if data.contains 0 then .error (.nullInText "byte") else .ok ()

/-- Whether a path has too many bytes to be looked up. -/
def isTooLong (p : FilePath) : Bool :=
  sizeLimit < nameSize p.text

example : (ofText "a//./b/").text = "a/b" := by decide

end FilePath

end Lineage
