import Lineage.Entries
import Lineage.Timeline

namespace Lineage

/-- The declared versions by name, with their ranks. -/
abbrev Ranks := Entries String Int

/-- The actions of an item with the versions in which they take effect. -/
def Item.actions (item : Item) : List (Action × String) :=
  (item.added.map fun a => (Action.added, a.since)).toList
    ++ item.changes.map (fun c => (Action.changed, c.since))
    ++ (item.deprecated.map fun d => (Action.deprecated, d.since)).toList

/-- The texts of a list that stand in it before already; `seen` are those that come before it. -/
def recurring (seen : List String) : List String → List String
  | [] => []
  | s :: rest => if seen.contains s then s :: recurring seen rest else recurring (s :: seen) rest

/-- A text that is there and not empty. -/
def filled? (s : Option String) : Option String :=
  s.filter fun text => !text.isEmpty

namespace Item

/-- Every action must take effect in a declared version. -/
def checkVersions (declared : Ranks) (item : Item) : List ItemProblem :=
  (item.actions.filter fun (_, since) => !declared.has since).map fun (action, since) =>
    .undeclared action since

/-- No two actions may take effect in the same version. -/
def checkCombinations (item : Item) : List ItemProblem :=
  let changes := item.changes.map (·.since)
  let addedDeprecated := match item.added, item.deprecated with
    | some a, some d => if a.since = d.since then [ItemProblem.addedAndDeprecated a.since] else []
    | _, _ => []
  let addedChanged := match item.added with
    | some a => if changes.contains a.since then [ItemProblem.addedAndChanged a.since] else []
    | none => []
  let changedDeprecated := match item.deprecated with
    | some d => if changes.contains d.since then [ItemProblem.changedAndDeprecated d.since] else []
    | none => []
  addedDeprecated ++ addedChanged ++ changedDeprecated
    ++ (recurring [] changes).map ItemProblem.changedTwice

/-- An item is added first, then changed, and deprecated last. -/
def checkOrder (declared : Ranks) (item : Item) : List ItemProblem :=
  let added := item.added.bind fun a => declared.get? a.since
  let deprecated := item.deprecated.bind fun d => declared.get? d.since
  let early := match item.added, item.deprecated, added, deprecated with
    | some a, some d, some first, some last =>
      if last < first then [ItemProblem.deprecatedBeforeAdded a.since d.since] else []
    | _, _, _, _ => []
  let ranks := item.changes.filterMap fun c => declared.get? c.since
  let outside := ranks.any fun r => added.any (r ≤ ·) || deprecated.any (· ≤ r)
  early ++ if outside then [.changeOutOfRange] else []

/-- An item bears the mark of deprecated items exactly while it is deprecated. -/
def checkNames (kind : Kind) (item : Item) : List ItemProblem :=
  let marked := kind.isMarked item.name
  let own := match item.deprecated with
    | some _ => if marked then [] else [ItemProblem.markMissing kind.mark]
    | none => if marked then [ItemProblem.markUnexpected kind.mark] else []
  own ++ (item.changes.filterMap (·.fromName)).filterMap fun name =>
    if kind.isMarked name then some (.markInPreviousName name) else none

/-- The arguments of a change must fit together. -/
def checkChange (c : Change) : List ItemProblem :=
  if c.fromType.isSome then []
  else (if (filled? c.upgradeWith).isSome then [.upgradeWithoutType] else [])
    ++ (if (filled? c.downgradeWith).isSome then [.downgradeWithoutType] else [])
    ++ (if c.fromName.isNone then [.changeEmpty c.since] else [])

/-- The arguments of an addition must fit the kind of the container. -/
def checkAddition (kind : Kind) (a : Addition) : List ItemProblem :=
  (if a.supplier.any fun s => (Text.strip s).isEmpty then [.supplierBlank] else [])
    ++ (if (filled? a.fallback).isSome && kind != .enum then [.fallbackOnField] else [])

/-- Fields need a type, and the arguments of all actions must fit together. -/
def checkArguments (kind : Kind) (item : Item) : List ItemProblem :=
  (if kind == .struct && (filled? item.type).isNone then [.typeMissing] else [])
    ++ item.changes.flatMap checkChange
    ++ item.added.toList.flatMap (checkAddition kind)

/-- All rules that the history of an item breaks. -/
def problems (declared : Ranks) (kind : Kind) (item : Item) : List ItemProblem :=
  item.checkVersions declared ++ item.checkCombinations ++ item.checkOrder declared
    ++ item.checkNames kind ++ item.checkArguments kind

/-- All problems of an item. -/
def check (declared : Ranks) (kind : Kind) (item : Item) : List Problem :=
  (item.problems declared kind).map (.item item.name)

end Item

/-- The ranks of declared versions; a name that is declared twice has the first. -/
def ranksFrom (rank : Nat) (known : Ranks) : List Declaration → Ranks
  | [] => known
  | d :: rest =>
    ranksFrom (rank + 1) (if known.has d.name then known else known ++ [(d.name, (rank : Int))]) rest

/-- The ranks of declared versions. -/
def Ranks.ofDeclarations (declarations : List Declaration) : Ranks :=
  ranksFrom 0 [] declarations

/-- A container without problems, and the timeline of its versions. -/
structure Validated where
  container : Container
  timeline : Timeline
  deriving Repr

namespace Container

/-- All problems of a container. -/
def check (allowUnsorted : Bool) (c : Container) : List Problem :=
  let declared := Ranks.ofDeclarations c.versions
  let storage := match c.resource.bind fun r => filled? r.storageVersion with
    | some version => if declared.has version then [] else [Problem.storageUndeclared version]
    | none => []
  checkDeclarations allowUnsorted c.versions ++ c.items.flatMap (Item.check declared c.kind)
    ++ storage

/-- A container as validated, unless it has problems. Whether its versions may be unsorted is up to
its own options if it is not given. -/
def validate (allowUnsorted : Option Bool) (c : Container) : Except Failure Validated :=
  let unsorted := allowUnsorted.getD c.options.allowUnsorted
  match c.check unsorted with
  | [] => return ⟨c, ← Timeline.ofDeclarations unsorted c.name c.versions⟩
  | problems => .error (.invalid c.name problems)

end Container

end Lineage
