import Lineage.Generation

namespace Lineage

/-- What became of the containers of a bundle, each under its name, how the generations ended, and the
fault that interrupted them, if one did. -/
structure BundleResult where
  name : String
  results : Entries String Generation
  failures : Entries String Failure
  outcomes : List (Kind × Outcome)
  interrupted : Option Fault
  deriving Repr

namespace Bundle

/-- A container with the versions of the bundle and the options of both. -/
def adopt (b : Bundle) (c : Container) : Container :=
  { c with
    versions := b.versions
    options := ⟨b.options.allowUnsorted || c.options.allowUnsorted,
      b.options.skipFrom || c.options.skipFrom⟩ }

/-- Generates from one container of the bundle, which must not have versions of its own. -/
def generateOne (b : Bundle) (c : Container) : Except Failure Generation :=
  if c.versions.isEmpty then Generation.ofContainer (b.adopt c)
  else .error (.invalid c.name [.versionsInBundle])

/-- A result with what became of one more container. After a fault there are no more. -/
def record (result : BundleResult) (c : Container) (made : Except Failure Generation) : BundleResult :=
  let outcomes := result.outcomes ++ ((Generation.outcome? made).map fun o => (c.kind, o)).toList
  match made with
  | .ok g => { result with results := result.results.put c.name g, outcomes := outcomes }
  | .error (.fault cause) => { result with interrupted := some cause }
  | .error failure =>
    { result with failures := result.failures.put c.name failure, outcomes := outcomes }

/-- Generates from all containers of the bundle; one that fails does not affect the others. -/
def generate (b : Bundle) : BundleResult :=
  b.containers.foldl
    (fun result c => if result.interrupted.isSome then result else record result c (b.generateOne c))
    ⟨b.name, [], [], [], none⟩

end Bundle

/-- A result that no fault interrupted. -/
def BundleResult.complete (r : BundleResult) : Except Failure BundleResult :=
  match r.interrupted with
  | some cause => .error (.fault cause)
  | none => .ok r

/-- A result as data. -/
def BundleResult.toValue (r : BundleResult) : Value :=
  .object [("module", .text r.name),
    ("containers", .object (r.results.map fun (name, g) => (name, g.toValue))),
    ("failures", .object (r.failures.map fun (name, f) => (name, f.toValue)))]

end Lineage
