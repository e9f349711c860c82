import Lineage.Lifecycle
import Lineage.Ranked
import Lineage.Status

namespace Lineage

/-- The statuses of an item by version; an item without a history has none. A chain is filled once
every version of a timeline has a status. -/
structure Chain where
  item : Item
  statuses : Option (Ranked Status)
  timeline : Option Timeline
  deriving Repr

/-- The statuses of the changes of an item, which come newest first, and the name and the type that
the item had before all of them. -/
def Status.ofChanges (statuses : Ranked Status) (name : String) (type : Option String) :
    List (Nat × Change) → Ranked Status × String × Option String
  | [] => (statuses, name, type)
  | (rank, c) :: rest =>
    let fromName := (filled? c.fromName).getD name
    let fromType := c.fromType <|> type
    let status := if fromType = type then Status.renamed fromName name type
      else .changed fromName fromType name type c.upgradeWith c.downgradeWith
    ofChanges (statuses.insert rank status) fromName fromType rest

namespace Chain

/-- The chain of the actions of an item, which are undone from the newest to the oldest, because the
declared name and type are those of the latest version. -/
def ofItem (kind : Kind) (timeline : Timeline) (item : Item) : Except Failure Chain :=
  if !item.hasHistory then .ok ⟨item, none, none⟩
  else do
    let (statuses, name) ← match item.deprecated with
      | some d => do
        let previous := kind.unmark item.name
        let status := Status.deprecated previous item.name item.type d.note
        pure (Ranked.insert [] (← timeline.get d.since).rank status, previous)
      | none => pure ([], item.name)
    let dated ← item.changes.mapM fun c => do return ((← timeline.get c.since).rank, c)
    let newestFirst := dated.mergeSort fun a b => b.1 ≤ a.1
    let (statuses, name, type) := Status.ofChanges statuses name item.type newestFirst
    match item.added with
    | some a =>
      let rank := (← timeline.get a.since).rank
      return ⟨item, some (statuses.insert rank (.added name type a)), none⟩
    | none => return ⟨item, some statuses, none⟩

/-- The status of the item of a name that a version gets from the statuses next to it. -/
def propagated (item : String) (statuses : Ranked Status) (rank : Nat) : Except Fault Status :=
  match statuses.neighbors rank with
  | (some s, _) => .ok s.later
  | (none, some s) => s.earlier item
  | (none, none) => .error (.noStatuses (Text.quoted item))

/-- Gives a status to every version that has none, from the first to the last. -/
def fillFrom (item : String) (statuses : Ranked Status) : List Release → Except Fault (Ranked Status)
  | [] => .ok statuses
  | r :: rest =>
    if statuses.has r.rank then fillFrom item statuses rest
    else do
      let status ← propagated item statuses r.rank
      fillFrom item (statuses.insert r.rank status) rest

/-- The chain with a status for every version of a timeline. -/
def fill (timeline : Timeline) (chain : Chain) : Except Fault Chain :=
  match chain.statuses with
  | none => .ok { chain with timeline := some timeline }
  | some statuses => do
    let filled ← fillFrom chain.item.name statuses timeline.releases
    return { chain with statuses := some filled, timeline := some timeline }

/-- The status in a version. -/
def statusAt (chain : Chain) (r : Release) : Except Fault Status :=
  match chain.statuses with
  | none => .ok (.unchanged chain.item.name chain.item.type false none)
  | some statuses =>
    match statuses.get? r.rank with
    | some s => .ok s
    | none => .error (.uncovered r.name)

/-- The statuses in all versions of a filled chain. -/
def history (chain : Chain) : Except Fault (List (Release × Status)) :=
  match chain.timeline with
  | none => .error .unfilled
  | some timeline => timeline.releases.mapM fun r => do return (r, ← chain.statusAt r)

/-- The filled chains of the items of a container. -/
def ofContainer (v : Validated) : Except Failure (List Chain) :=
  v.container.items.mapM fun item => do
    let chain ← ofItem v.container.kind v.timeline item
    chain.fill v.timeline

end Chain

end Lineage
