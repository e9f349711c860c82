import Lineage.Entries
import Lineage.FilePath

namespace Lineage

/-- A location in the tree of all files: the way to it from the root, or from the folder that one is in,
up and then down. -/
structure Location where
  absolute : Bool
  up : Nat
  down : List String
  deriving DecidableEq, Repr

namespace Location

/-- The folder that one is in. -/
def here : Location := ⟨false, 0, []⟩

/-- The folder above all others. -/
def root : Location := ⟨true, 0, []⟩

/-- The folder that a location is in; there is none above the root. -/
def above (p : Location) : Location :=
  if p.down.isEmpty then { p with up := if p.absolute then 0 else p.up + 1 }
  else { p with down := p.down.dropLast }

/-- The location of a name in a folder. -/
def inner (p : Location) (name : String) : Location :=
  { p with down := p.down ++ [Text.decodeName (name.toList.flatMap Text.nameBytes)] }

/-- The way to a location as a path, if it is not outside of the folder that one is in. -/
def text? (p : Location) : Option String :=
  if p.absolute || p.up != 0 then none else some (String.intercalate "/" p.down)

end Location

/-- What a path leads to: a folder, a file, or a location in a folder at which there is nothing. -/
inductive Located where
  | absent (place : Location)
  | folder (place : Location)
  | file (place : Location) (data : List UInt8)
  deriving DecidableEq, Repr

/-- The files that are known, and the folders below the folder that one is in and below the root. -/
structure FileTree where
  files : Entries Location (List UInt8)
  folders : List Location
  deriving Repr

namespace FileTree

/-- The tree of an empty folder. Elsewhere, what is known are folders that every system has, and the
file that stays empty. -/
def empty : FileTree :=
  let devices := Location.root.inner "dev"
  ⟨[(devices.inner "null", [])], [devices, Location.root.inner "tmp"]⟩

/-- What is found at a name in a folder. -/
def find (t : FileTree) (folder : Location) (name : String) : Located :=
  let place := folder.inner name
  match Entries.get? t.files place with
  | some data => .file place data
  | none => if t.folders.contains place then .folder place else .absent place

/-- What is found at the end of names from a folder on. -/
def locateFrom (t : FileTree) : Location → List String → Except FileReason Located
  | folder, [] => .ok (.folder folder)
  | folder, name :: rest =>
    if name == ".." then locateFrom t folder.above rest
    else if FilePath.nameLimit < FilePath.nameSize name then .error .nameTooLong
    else
      match t.find folder name with
      | .folder place => locateFrom t place rest
      | .file place data => if rest.isEmpty then .ok (.file place data) else .error .notFolder
      | .absent place => if rest.isEmpty then .ok (.absent place) else .error .missing

/-- What a path leads to, which must go through folders. -/
def locate (t : FileTree) (p : FilePath) : Except Fault Located := do
  p.check
  if p.isTooLong then throw (p.fault .nameTooLong)
  (t.locateFrom (if p.root.isEmpty then .here else .root) p.names).mapError p.fault

/-- Whether there is something at a path. A path that cannot be asked for leads to nothing. -/
def has (t : FileTree) (p : FilePath) : Except Fault Bool :=
  match t.locate p with
  | .ok (.absent _) => .ok false
  | .ok _ => .ok true
  | .error (.file .nameTooLong literal) => .error (.file .nameTooLong literal)
  | .error _ => .ok false

/-- The bytes of the file at a path. -/
def read (t : FileTree) (p : FilePath) : Except Fault (List UInt8) := do
  match ← t.locate p with
  | .file _ data => return data
  | .folder _ => throw (p.fault .folder)
  | .absent _ => throw (p.fault .missing)

/-- Makes a folder at a path, in a folder that is there. A folder that is there already stays. -/
def makeFolder (t : FileTree) (p : FilePath) : Except Fault FileTree := do
  match ← t.locate p with
  | .folder _ => return t
  | .file _ _ => throw (p.fault .existing)
  | .absent place => return { t with folders := place :: t.folders }

/-- Makes the folder at the end of names, given from the last one on, and the folders that it is in. -/
def makeFoldersTo (t : FileTree) (root : String) : List String → Except Fault FileTree
  | [] => t.makeFolder ⟨root, []⟩
  | name :: outer => do
    let p : FilePath := ⟨root, (name :: outer).reverse⟩
    match t.makeFolder p with
    | .error (.file .missing _) => (← makeFoldersTo t root outer).makeFolder p
    | result => result

/-- Writes a file, and makes the folders that it is in. -/
def write (t : FileTree) (p : FilePath) (data : List UInt8) : Except Fault FileTree := do
  let t ← t.makeFoldersTo p.root p.parent.names.reverse
  match ← t.locate p with
  | .folder _ => throw (p.fault .folder)
  | .file place _ | .absent place => return { t with files := Entries.put t.files place data }

/-- The files in or below the folder that one is in that another tree does not have. -/
def filesBeyond (t other : FileTree) : Entries String (List UInt8) :=
  t.files.filterMap fun (place, data) =>
    if Entries.has other.files place then none else place.text?.map fun name => (name, data)

end FileTree

/-- The text that bytes hold, in which every line ends with a line feed. -/
def textOfBytes (data : List UInt8) : Except Fault String :=
  match Text.decodeUtf8 data with
  | .ok s => .ok (String.ofList (Text.unifyLines s.toList))
  | .error cause => .error (.badEncoding cause.message)

end Lineage
