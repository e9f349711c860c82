import Lineage.Version.Reader
import Lineage.Value.Key

namespace Lineage

/-- The sides from which a description can be wrong. -/
inductive Category where
  | reference
  | ordering
  | naming
  | argument
  | collision
  | irreversible
  deriving DecidableEq, Repr

/-- The name of a category. -/
def Category.name : Category → String
  | .reference => "reference"
  | .ordering => "ordering"
  | .naming => "naming"
  | .argument => "argument"
  | .collision => "collision"
  | .irreversible => "irreversible"

/-- What can happen to an item. -/
inductive Action where
  | added
  | changed
  | deprecated
  deriving DecidableEq, Repr

/-- The name of an action. -/
def Action.name : Action → String
  | .added => "added"
  | .changed => "changed"
  | .deprecated => "deprecated"

/-- A rule that the history of an item breaks. -/
inductive ItemProblem where
  | undeclared (action : Action) (version : String)
  | addedAndDeprecated (version : String)
  | addedAndChanged (version : String)
  | changedAndDeprecated (version : String)
  | changedTwice (version : String)
  | deprecatedBeforeAdded (added deprecated : String)
  | changeOutOfRange
  | markMissing (mark : String)
  | markUnexpected (mark : String)
  | markInPreviousName (name : String)
  | typeMissing
  | upgradeWithoutType
  | downgradeWithoutType
  | changeEmpty (version : String)
  | supplierBlank
  | fallbackOnField
  deriving DecidableEq, Repr

/-- A rule that a container breaks. -/
inductive Problem where
  | noVersions
  | versionInvalid (name : String) (fault : VersionFault)
  | versionsDuplicate (names : List String)
  | versionsUnsorted (name : String)
  | item (name : String) (problem : ItemProblem)
  | storageUndeclared (version : String)
  | resourceMissing
  | resourceNotStruct
  | versionsInBundle
  deriving DecidableEq, Repr

namespace ItemProblem

/-- The category of a rule. -/
def category : ItemProblem → Category
  | undeclared _ _ => .reference
  | addedAndDeprecated _ | addedAndChanged _ | changedAndDeprecated _ | changedTwice _
  | deprecatedBeforeAdded _ _ | changeOutOfRange => .ordering
  | markMissing _ | markUnexpected _ | markInPreviousName _ => .naming
  | typeMissing | upgradeWithoutType | downgradeWithoutType | changeEmpty _ | supplierBlank
  | fallbackOnField => .argument

/-- The code of a rule. -/
def code : ItemProblem → String
  | undeclared action _ => action.name ++ ".undeclared_version"
  | addedAndDeprecated _ => "actions.added_deprecated_same_version"
  | addedAndChanged _ => "actions.added_changed_same_version"
  | changedAndDeprecated _ => "actions.changed_deprecated_same_version"
  | changedTwice _ => "actions.duplicate_change_version"
  | deprecatedBeforeAdded _ _ => "actions.deprecated_before_added"
  | changeOutOfRange => "actions.change_out_of_range"
  | markMissing _ => "naming.missing_deprecated_prefix"
  | markUnexpected _ => "naming.unexpected_deprecated_prefix"
  | markInPreviousName _ => "naming.prefixed_previous_name"
  | typeMissing => "field.missing_type"
  | upgradeWithoutType => "changed.upgrade_with_without_type"
  | downgradeWithoutType => "changed.downgrade_with_without_type"
  | changeEmpty _ => "changed.empty"
  | supplierBlank => "added.empty_default"
  | fallbackOnField => "added.fallback_on_field"

/-- The text of a broken rule. -/
def message : ItemProblem → String
  | undeclared action version =>
    let literal := Text.quoted version
    s!"the \x60{action.name}\x60 action uses version {literal} which is not declared"
  | addedAndDeprecated _ =>
    "cannot be marked as \x60added\x60 and \x60deprecated\x60 in the same version"
  | addedAndChanged _ => "cannot be marked as \x60added\x60 and \x60changed\x60 in the same version"
  | changedAndDeprecated _ =>
    "cannot be marked as \x60deprecated\x60 and \x60changed\x60 in the same version"
  | changedTwice version =>
    let literal := Text.quoted version
    s!"more than one \x60changed\x60 action uses version {literal}"
  | deprecatedBeforeAdded added deprecated =>
    let first := Text.quoted added
    let second := Text.quoted deprecated
    s!"cannot be marked as \x60added\x60 in version {first} while being marked as "
      ++ s!"\x60deprecated\x60 in an earlier version {second}"
  | changeOutOfRange =>
    "all changes must use versions higher than \x60added\x60 and lower than \x60deprecated\x60"
  | markMissing mark =>
    s!"marked as \x60deprecated\x60 and thus must include the \x60{mark}\x60 prefix"
  | markUnexpected mark =>
    s!"not marked as \x60deprecated\x60 and thus must not include the \x60{mark}\x60 prefix"
  | markInPreviousName _ => "the previous name must not start with the deprecation prefix"
  | typeMissing => "struct fields must declare a type"
  | upgradeWithoutType =>
    "the \x60upgrade_with\x60 argument must be used in combination with \x60from_type\x60"
  | downgradeWithoutType =>
    "the \x60downgrade_with\x60 argument must be used in combination with \x60from_type\x60"
  | changeEmpty _ => "a \x60changed\x60 action must set \x60from_name\x60, \x60from_type\x60 or both"
  | supplierBlank => "\x60default\x60 cannot be empty"
  | fallbackOnField => "\x60downgrade_fallback\x60 is only supported on enum variants"

/-- What else is known of a broken rule. -/
def details : ItemProblem → List (String × Value)
  | undeclared _ version | addedAndDeprecated version | addedAndChanged version
  | changedAndDeprecated version | changedTwice version | changeEmpty version =>
    [("version", .text version)]
  | markInPreviousName name => [("from_name", .text name)]
  | _ => []

end ItemProblem

namespace Problem

/-- The category of a rule. -/
def category : Problem → Category
  | noVersions | versionInvalid _ _ | versionsDuplicate _ | storageUndeclared _ | versionsInBundle =>
    .reference
  | versionsUnsorted _ => .ordering
  | item _ problem => problem.category
  | resourceMissing | resourceNotStruct => .argument

/-- The code of a rule. -/
def code : Problem → String
  | noVersions => "versions.empty"
  | versionInvalid _ _ => "versions.invalid"
  | versionsDuplicate _ => "versions.duplicate"
  | versionsUnsorted _ => "versions.unsorted"
  | item _ problem => problem.code
  | storageUndeclared _ => "k8s.undeclared_storage_version"
  | resourceMissing => "k8s.missing_options"
  | resourceNotStruct => "k8s.not_a_struct"
  | versionsInBundle => "module.container_declares_versions"

/-- The text of a broken rule. -/
def message : Problem → String
  | noVersions => "at least one version must be declared"
  | versionInvalid _ fault => fault.message
  | versionsDuplicate names =>
    let joined := String.intercalate ", " names
    s!"duplicate versions declared: {joined}"
  | versionsUnsorted name =>
    let literal := Text.quoted name
    s!"versions must be declared in ascending order (version {literal} is misplaced)"
  | item _ problem => problem.message
  | storageUndeclared version =>
    let literal := Text.quoted version
    s!"storage version {literal} is not declared"
  | resourceMissing => "the container declares no \x60k8s\x60 options"
  | resourceNotStruct => "only struct containers can be served as custom resources"
  | versionsInBundle => "containers inside a module must not declare their own versions"

/-- The name of the item that breaks a rule. -/
def item? : Problem → Option String
  | item name _ => some name
  | _ => none

/-- What else is known of a broken rule. -/
def details : Problem → List (String × Value)
  | versionInvalid name _ | versionsUnsorted name => [("version", .text name)]
  | versionsDuplicate names => [("versions", .list (names.map .text))]
  | item _ problem => problem.details
  | _ => []

/-- A broken rule as one line. -/
def line (p : Problem) : String :=
  match p.item? with
  | some name => if name.isEmpty then s!"[{p.code}] {p.message}" else s!"[{p.code}] {name}: {p.message}"
  | none => s!"[{p.code}] {p.message}"

/-- A broken rule as data. -/
def toValue (p : Problem) : Value :=
  .object [("category", .text p.category.name), ("code", .text p.code), ("message", .text p.message),
    ("item", (p.item?.map .text).getD .null), ("details", .object p.details)]

end Problem

end Lineage
