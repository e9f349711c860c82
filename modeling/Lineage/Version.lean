namespace Lineage

/-- The stages before a version is stable. -/
inductive Stage where
  | alpha
  | beta
  deriving DecidableEq, Repr

/-- A stage of a version and the number of the attempt at it. -/
structure Level where
  stage : Stage
  number : Nat
  deriving DecidableEq, Repr

/-- The version of an interface: a major number, and a level while it is not yet stable. -/
structure Version where
  major : Nat
  level : Option Level
  deriving DecidableEq, Repr

/-- The name of a stage. -/
def Stage.name : Stage → String
  | .alpha => "alpha"
  | .beta => "beta"

/-- The text of a level. -/
def Level.text (l : Level) : String :=
  l.stage.name ++ toString l.number

/-- The text of a version. -/
def Version.text (v : Version) : String :=
  "v" ++ toString v.major ++ (v.level.map Level.text).getD ""

/-- Capitalises the letters that stand first or after a digit; `first` tells whether the text does. -/
def capitalizeParts (first : Bool) : List Char → List Char
  | [] => []
  | c :: rest =>
    if c.isDigit then c :: capitalizeParts true rest
    else (if first then c.toUpper else c) :: capitalizeParts false rest

/-- The text of a version as part of the name of a class. -/
def Version.className (v : Version) : String :=
  String.ofList (capitalizeParts true v.text.toList)

/-- Alpha stages come before beta stages. -/
def Stage.before : Stage → Stage → Bool
  | .alpha, .beta => true
  | _, _ => false

/-- Levels are ordered by stage, and within a stage by number. -/
def Level.before (a b : Level) : Bool :=
  a.stage.before b.stage || (a.stage == b.stage && a.number < b.number)

/-- Versions are ordered by major number; within one, every level comes before the stable version. -/
def Version.before (a b : Version) : Bool :=
  a.major < b.major || (a.major == b.major && match a.level, b.level with
    | some l, some m => l.before m
    | some _, none => true
    | none, _ => false)

/-- Whether one level does not come after another. -/
def Level.atMost (a b : Level) : Bool :=
  a.before b || a == b

/-- Whether one level comes after another. -/
def Level.after (a b : Level) : Bool :=
  !a.before b && a != b

/-- Whether one level does not come before another. -/
def Level.atLeast (a b : Level) : Bool :=
  !a.before b

namespace Version

/-- Whether one version does not come after another. -/
def atMost (a b : Version) : Bool :=
  a.before b || a == b

/-- Whether one version comes after another. -/
def after (a b : Version) : Bool :=
  !a.before b && a != b

/-- Whether one version does not come before another. -/
def atLeast (a b : Version) : Bool :=
  !a.before b

/-- What has versions, in ascending order of these; what has the same version stays in its order. -/
def ascending {α : Type} (versioned : List (α × Version)) : List (α × Version) :=
  versioned.mergeSort fun a b => !b.2.before a.2

end Version

end Lineage
