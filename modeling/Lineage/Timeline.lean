import Lineage.Container
import Lineage.Failure
import Lineage.Text.Blank
import Lineage.Text.Lines
import Lineage.Version.Reader

namespace Lineage

/-- A declared version with its place among the others. -/
structure Release where
  name : String
  version : Version
  rank : Nat
  note : Option String
  skipFrom : Bool
  docs : List String
  deriving DecidableEq, Repr

/-- Whether a version is deprecated. -/
def Release.deprecated (r : Release) : Bool :=
  r.note.isSome

/-- The declared versions in the order of their ranks. -/
structure Timeline where
  releases : List Release
  deriving DecidableEq, Repr

namespace Declaration

/-- The note of a deprecated version. A mere flag stands for a note that only says so. -/
def deprecationNote (d : Declaration) : Option String :=
  match d.deprecated with
  | none | some (.flag false) => none
  | some (.flag true) => some s!"Version {d.name} is deprecated"
  | some (.note text) => some text

/-- The lines of the documentation of a version. -/
def docLines (d : Declaration) : List String :=
  match d.doc with
  | none => []
  | some doc => (Text.lines (Text.trim doc.toList)).map fun line => String.ofList (Text.trimEnd line)

/-- The release of a declaration at a rank. -/
def release (d : Declaration) (rank : Nat) (version : Version) : Release :=
  ⟨d.name, version, rank, d.deprecationNote, d.skipFrom, d.docLines⟩

end Declaration

/-- The names that stand more than once in a list, each once, in alphabetical order. -/
def repeated (names : List String) : List String :=
  ((names.filter fun name => 1 < names.count name).eraseDups).mergeSort Text.inOrder

/-- The first name that is not where it would stand in ascending order of the versions. -/
def misplaced? (named : List (String × Version)) : Option String :=
  ((named.zip (Version.ascending named)).find? fun (a, b) => a.1 != b.1).map (·.1.1)

/-- The problems of the declarations of versions. -/
def checkDeclarations (allowUnsorted : Bool) (declarations : List Declaration) : List Problem :=
  if declarations.isEmpty then [.noVersions]
  else
    let read := declarations.map fun d => (d.name, Version.parse (some d.name))
    let invalid := read.filterMap fun (name, outcome) =>
      match outcome with
      | .error fault => some (Problem.versionInvalid name fault)
      | .ok _ => none
    let named := read.filterMap fun (name, outcome) => outcome.toOption.map ((name, ·))
    let duplicates := repeated (declarations.map (·.name))
    let twice := if duplicates.isEmpty then [] else [Problem.versionsDuplicate duplicates]
    let unsorted :=
      if allowUnsorted || !invalid.isEmpty then []
      else (misplaced? named).toList.map Problem.versionsUnsorted
    invalid ++ twice ++ unsorted

namespace Timeline

/-- The releases of declarations whose names are all versions; the first gets the rank `rank`. -/
def releasesFrom (rank : Nat) : List Declaration → List Release
  | [] => []
  | d :: rest =>
    match Version.parse (some d.name) with
    | .ok version => d.release rank version :: releasesFrom (rank + 1) rest
    | .error _ => releasesFrom rank rest

/-- The timeline of the declarations of a container. -/
def ofDeclarations (allowUnsorted : Bool) (container : String) (declarations : List Declaration) :
    Except Failure Timeline :=
  match checkDeclarations allowUnsorted declarations with
  | [] => .ok ⟨releasesFrom 0 declarations⟩
  | problems => .error (.invalid container problems)

/-- The timeline of versions of which only the names are given. -/
def ofNames (names : List String) : Except Failure Timeline :=
  ofDeclarations false "<versions>" (names.map Declaration.named)

/-- The names of the versions. -/
def names (t : Timeline) : List String :=
  t.releases.map (·.name)

/-- The release of a name. -/
def find? (t : Timeline) (name : String) : Option Release :=
  t.releases.find? fun r => r.name == name

/-- The release of a name that must be declared. -/
def get (t : Timeline) (name : String) : Except Failure Release :=
  match t.find? name with
  | some r => .ok r
  | none => .error (.unknownVersion name t.names)

/-- The release of a rank. -/
def at? (t : Timeline) (rank : Nat) : Option Release :=
  t.releases[rank]?

/-- Whether a name is declared. -/
def has (t : Timeline) (name : String) : Bool :=
  (t.find? name).isSome

/-- The first version. -/
def earliest? (t : Timeline) : Option Release :=
  t.releases.head?

/-- The last version. -/
def latest? (t : Timeline) : Option Release :=
  t.releases.getLast?

/-- The version after a release. -/
def next? (t : Timeline) (r : Release) : Option Release :=
  t.at? (r.rank + 1)

/-- The version before a release. -/
def previous? (t : Timeline) (r : Release) : Option Release :=
  match r.rank with
  | 0 => none
  | rank + 1 => t.at? rank

/-- The pairs of versions that follow each other. -/
def adjacentPairs (t : Timeline) : List (Release × Release) :=
  t.releases.zip t.releases.tail

/-- The ranks from `start` up to before `stop`. -/
def between (t : Timeline) (start stop : Nat) : List Release :=
  (t.releases.take stop).drop start

/-- A position in a list of a length; a negative one counts from the end. -/
def position (length : Nat) (n : Int) : Nat :=
  if n < 0 then (n + length).toNat else n.toNat

/-- The versions from one position up to before another; negative positions count from the end. -/
def slice (t : Timeline) (start stop : Int) : List Release :=
  let length := t.releases.length
  t.between (position length start) (position length stop)

theorem get_eq_ok_iff {t : Timeline} {name : String} {r : Release} :
    t.get name = .ok r ↔ t.find? name = some r := by
  unfold get
  split <;> simp_all

theorem name_of_find? {t : Timeline} {name : String} {r : Release} (found : t.find? name = some r) :
    r.name = name := by
  simpa using List.find?_some found

end Timeline

end Lineage
