import Lineage.Edge.Generate
import Lineage.Timeline.Path

namespace Lineage

/-- All that is generated from a container. -/
structure Generation where
  validated : Validated
  chains : List Chain
  definitions : List Definition
  edges : List Edge
  deriving Repr

/-- How the generation of a container can end. -/
inductive Outcome where
  | ok
  | invalid
  | collision
  | irreversible
  deriving DecidableEq, Repr

/-- The name of an outcome. -/
def Outcome.name : Outcome → String
  | ok => "ok"
  | invalid => "invalid"
  | collision => "collision"
  | irreversible => "irreversible"

/-- The outcome of a generation that failed; one that a fault ended has none. -/
def Outcome.ofFailure? : Failure → Option Outcome
  | .collision _ _ _ => some collision
  | .irreversible _ _ _ _ _ => some irreversible
  | .rejected _ | .fault _ => none
  | _ => some invalid

namespace Generation

/-- Generates from a validated container: chains, definitions and then edges. -/
def ofValidated (v : Validated) : Except Failure Generation := do
  let chains ← Chain.ofContainer v
  let definitions ← Definition.assembleAll v chains
  return ⟨v, chains, definitions, ← Edge.generateAll v chains (some definitions)⟩

/-- Generates from a container. -/
def ofContainer (c : Container) : Except Failure Generation := do
  ofValidated (← c.validate none)

/-- The name of the container. -/
def name (g : Generation) : String :=
  g.validated.container.name

/-- The kind of the container. -/
def kind (g : Generation) : Kind :=
  g.validated.container.kind

/-- The versions of the container. -/
def timeline (g : Generation) : Timeline :=
  g.validated.timeline

/-- The definition in a version, which must be declared. -/
def definition (g : Generation) (version : String) : Except Failure Definition := do
  let r ← g.timeline.get version
  match g.definitions.find? fun d => d.release.name == r.name with
  | some d => return d
  | none => .error (.fault (.uncovered r.name))

/-- The edge from one version to another. -/
def edge? (g : Generation) (source target : String) : Option Edge :=
  g.edges.find? fun e => e.connects source target

/-- The edges from a version over the versions of a path. -/
def edgesAlong (g : Generation) (current : String) : List Release → Except Failure (List Edge)
  | [] => .ok []
  | step :: rest =>
    match g.edge? current step.name with
    | some e => return e :: (← edgesAlong g step.name rest)
    | none => .error (.conversion (.missingEdge current step.name))

/-- The edges from one version to another, in the order in which they are applied. -/
def edgesBetween (g : Generation) (current desired : String) : Except Failure (List Edge) := do
  g.edgesAlong current (← g.timeline.path current desired)

/-- The statuses of all items in all versions, by the names of both; the last of several items of one
name has its row. -/
def chainTable (g : Generation) : Except Failure Value := do
  let rows ← g.chains.mapM fun chain => do
    let history ← chain.history
    let cells := history.map fun (r, s) => (r.name, s.toValue)
    return (chain.item.name, Value.object (Entries.ofList cells))
  return .object (Entries.ofList rows)

/-- A generation as data. -/
def toValue (g : Generation) : Value :=
  .object [("container", .text g.name), ("kind", .text g.kind.name),
    ("versions", .list (g.timeline.names.map .text)),
    ("definitions", .list (g.definitions.map Definition.toValue)),
    ("edges", .list (g.edges.map Edge.toValue))]

/-- The outcome of a generation. -/
def outcome? (result : Except Failure Generation) : Option Outcome :=
  match result with
  | .ok _ => some .ok
  | .error failure => Outcome.ofFailure? failure

end Generation

end Lineage
