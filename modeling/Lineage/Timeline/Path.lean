import Lineage.Entries
import Lineage.Timeline

namespace Lineage.Timeline

/-- The versions to step through from one release to another: the ranks after the first up to the
second, or down to it. -/
def pathBetween (t : Timeline) (start stop : Release) : List Release :=
  if start.rank < stop.rank then t.between (start.rank + 1) (stop.rank + 1)
  else (t.between stop.rank start.rank).reverse

/-- The versions to step through from one version to another. -/
def path (t : Timeline) (current desired : String) : Except Failure (List Release) := do
  let start ← t.get current
  let stop ← t.get desired
  return t.pathBetween start stop

/-- The paths between all versions, each with the version where it starts. -/
def paths (t : Timeline) : List (Release × List Release) :=
  t.releases.flatMap fun start =>
    (t.releases.filter fun stop => start.rank != stop.rank).map fun stop =>
      (start, t.pathBetween start stop)

/-- The names on paths, under the names of their two ends. -/
abbrev PathTable := Entries String (Entries String (List String))

/-- A table of paths with one more, which has the place of an earlier one with the same ends. The last
version of an empty path is beyond its end. -/
def PathTable.enter (table : PathTable) (e : Release × List Release) : Except Fault PathTable :=
  match e.2.getLast? with
  | some stop =>
    let row := (Entries.get? table e.1.name).getD []
    .ok (Entries.put table e.1.name (Entries.put row stop.name (e.2.map (·.name))))
  | none => .error .beyondEnd

/-- The names on the paths between all versions. -/
def pathTable (t : Timeline) : Except Fault PathTable :=
  t.paths.foldlM PathTable.enter []

/-- The path from a release to itself is empty. -/
theorem pathBetween_self (t : Timeline) (r : Release) : t.pathBetween r r = [] := by
  simp [pathBetween, between]

end Lineage.Timeline
