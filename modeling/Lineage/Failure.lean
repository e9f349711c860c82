import Lineage.Conversion.Fault
import Lineage.Description.Issue
import Lineage.Problem

namespace Lineage

/-- Why a variant cannot be converted to the older version. -/
inductive IrreversibleCause where
  | noFallback (variant older : String)
  | unknownFallback (fallback older : String)
  deriving DecidableEq, Repr

/-- The text of a cause. -/
def IrreversibleCause.message : IrreversibleCause → String
  | .noFallback variant older =>
    s!"variant {Text.quoted variant} does not exist in {older} and declares no "
      ++ "\x60downgrade_fallback\x60"
  | .unknownFallback fallback older =>
    s!"\x60downgrade_fallback\x60 {Text.quoted fallback} is not a variant of {older}"

/-- Why a description file is not loaded. A description that is rejected has a title, the name of
what it should describe. -/
inductive DescriptionFault where
  | unreadable (reason : String)
  | unparsed
  | notMapping (kind : String)
  | rejected (title : String) (issues : List Description.Issue)
  deriving DecidableEq, Repr

/-- The text of a fault; where it would go on with details, only its beginning. -/
def DescriptionFault.message : DescriptionFault → String
  | .unreadable reason => reason
  | .unparsed => "neither JSON nor YAML"
  | .notMapping kind => s!"expected a mapping at the top level, got {kind}"
  | .rejected title issues =>
    let count := issues.length
    let ending := if count = 1 then "" else "s"
    s!"{count} validation error{ending} for {title}"

/-- What ends an operation without a result. -/
inductive Failure where
  | invalid (container : String) (problems : List Problem)
  | collision (container version : String) (names : List String)
  | irreversible (container item source target : String) (cause : IrreversibleCause)
  | unknownVersion (version : String) (known : List String)
  | conversion (fault : ConversionFault)
  | description (path : String) (fault : DescriptionFault)
  | rejected (issues : List Description.Issue)
  | fault (fault : Fault)
  deriving DecidableEq, Repr

namespace Failure

/-- The name of a kind of failure; rejections and faults have none. -/
def name : Failure → String
  | invalid _ _ => "ActionValidationError"
  | collision _ _ _ => "NameCollisionError"
  | irreversible _ _ _ _ _ => "IrreversibleConversionError"
  | unknownVersion _ _ => "UnknownVersionError"
  | conversion _ => "ConversionError"
  | description _ _ => "DescriptionFileError"
  | rejected _ | .fault _ => ""

/-- The text of a failure. -/
def message : Failure → String
  | invalid container problems =>
    let lines := String.intercalate "\n" (problems.map fun p => "  - " ++ p.line)
    s!"container {Text.quoted container} failed validation with {problems.length} error(s):\n{lines}"
  | collision container version names =>
    let joined := String.intercalate ", " (names.map Text.quoted)
    s!"container {Text.quoted container} has colliding member identifier(s) {joined} in version "
      ++ version
  | irreversible container item source target cause =>
    s!"cannot downgrade {container}.{item} from {source} to {target}: {cause.message}"
  | unknownVersion version known =>
    let names := String.intercalate ", " known
    let listed := if names.isEmpty then "-" else names
    s!"the version {Text.quoted version} is not declared (known: {listed})"
  | conversion cause => cause.message
  | description path cause => s!"cannot load {path}: {cause.message}"
  | rejected _ => ""
  | .fault cause => cause.message

/-- A failure as data. -/
def toValue (f : Failure) : Value :=
  let name := ("error", Value.text f.name)
  match f with
  | invalid container problems =>
    .object [name, ("container", .text container), ("diagnostics", .list (problems.map Problem.toValue))]
  | collision container version names =>
    .object [name, ("container", .text container), ("version", .text version),
      ("names", .list (names.map .text))]
  | irreversible container item source target cause =>
    .object [name, ("container", .text container), ("item", .text item),
      ("source_version", .text source), ("target_version", .text target),
      ("reason", .text cause.message)]
  | description path cause =>
    .object [name, ("path", .text path), ("reason", .text cause.message)]
  | _ => .object [name, ("message", .text f.message)]

/-- The HTTP status of a failure: 400 for a bad description, 422 for a valid one from which nothing
can be generated. Rejections and faults are not answered by their kind. -/
def status : Failure → Int
  | collision _ _ _ | irreversible _ _ _ _ _ => 422
  | conversion cause => cause.status
  | _ => 400

/-- The categories of the problems of an invalid container, each once, in alphabetical order. -/
def categories : Failure → List String
  | invalid _ problems => ((problems.map fun p => p.category.name).mergeSort (· ≤ ·)).eraseDups
  | _ => []

/-- Whether a failure is about a description or a conversion, and not a fault of another kind. -/
def isDomain : Failure → Bool
  | rejected _ | .fault _ => false
  | _ => true

end Failure

/-- A fault of an operation is a failure of a larger one. -/
instance : MonadLift (Except Fault) (Except Failure) where
  monadLift
    | .ok a => .ok a
    | .error cause => .error (.fault cause)

/-- A fault of a conversion is a failure of a larger operation. -/
instance : MonadLift (Except ConversionFault) (Except Failure) where
  monadLift
    | .ok a => .ok a
    | .error cause => .error (.conversion cause)

end Lineage
