import Lineage.CustomResource.Review
import Lineage.Rendering
import Lineage.Service.Metrics
import Lineage.Service.Reply
import Lineage.Settings

namespace Lineage.Service

/-- The work on a request, which counts what it does. -/
abbrev Handler := ExceptT Ending (StateM Metrics)

namespace Handler

/-- Ends with an answer. -/
def ending {α : Type} (e : Ending) : Handler α :=
  throw e

/-- Ends with an answer about a failure of the description or of a conversion; others escape. -/
def answering {α : Type} (result : Except Failure α) : Handler α :=
  match result with
  | .ok a => return a
  | .error failure =>
    if failure.isDomain then
      ending (.reply (.detail failure.status.toNat failure.toValue))
    else ending (.escape failure)

/-- Lets every failure escape. -/
def escaping {α : Type} (result : Except Failure α) : Handler α :=
  match result with
  | .ok a => return a
  | .error failure => ending (.escape failure)

/-- What the body of a request holds. -/
def payload {α : Type} (r : Request) (read : Value → Description.Checked α) : Handler α :=
  match r.value with
  | .error cause => ending (.reply (bodyReply cause))
  | .ok v =>
    match read v with
    | .good a => return a
    | .bad issues => ending (issuesEnding v issues)

/-- Counts a generation. -/
def counting (kind : Kind) (made : Except Failure Generation) :
    Handler (Except Failure Generation) := do
  if let some outcome := Generation.outcome? made then
    modify fun m => m.generation kind outcome
  return made

/-- Generates from a container, and answers where that fails. -/
def generating (c : Container) : Handler Generation := do
  answering (← counting c.kind (Generation.ofContainer c))

/-- The answer that holds a value, if it can be written. -/
def replying (v : Value) : Handler Reply :=
  match plain? v with
  | some plain =>
    if isWritable plain then return .json 200 plain
    else ending (.escape (.fault (.raised "Out of range float values are not JSON compliant")))
  | none => ending (.escape (.fault (.badEncoding "not a text")))

/-- The answer that the service is in health. -/
def health (name status : String) : Handler Reply := do
  modify fun m => m.check name
  replying (.object [("status", .text status)])

/-- The answer with all counts. -/
def snapshot : Handler Reply := do
  replying (← get).snapshot

/-- The answer with the samples of all counts. -/
def exposition : Handler Reply := do
  return .exposition (← get).samples

/-- Answers what is generated from a container. -/
def generate (r : Request) : Handler Reply := do
  replying (← generating (← payload r Description.container)).toValue

/-- Answers what is generated from a bundle; containers that fail are part of the answer. -/
def bundle (r : Request) : Handler Reply := do
  let result := (← payload r Description.bundle).generate
  modify fun m => result.outcomes.foldl (fun m (kind, outcome) => m.generation kind outcome) m
  replying (← escaping result.complete).toValue

/-- Answers the statuses of all items of a container. -/
def chains (r : Request) : Handler Reply := do
  let g ← generating (← payload r Description.container)
  replying (.object [("container", .text g.name), ("versions", .list (g.timeline.names.map .text)),
    ("chains", ← escaping g.chainTable)])

/-- Answers rendered files of a container. -/
def render (settings : Settings) (r : Request) : Handler Reply := do
  let c ← payload r Description.container
  let name := Text.lower ((r.parameter? "format").getD settings.renderFormat)
  match Format.ofName name with
  | .error _ =>
    let literal := Text.quoted name
    let listed := Format.listed Format.all
    return .detail 400 (.text s!"unsupported format {literal}; expected one of {listed}")
  | .ok format =>
    let g ← generating c
    let files ← escaping (format.render g)
    return .json 200 (.object [("container", .text g.name), ("format", .text name),
      ("files", .object (files.map fun (path, content) => (path, .text content)))])

/-- Answers the path between two versions, or all paths if none are given. -/
def paths (r : Request) : Handler Reply := do
  let question ← payload r Payload.paths
  let g ← generating question.container
  let common := [("container", Value.text g.name), ("versions", .list (g.timeline.names.map .text))]
  match question.current, question.desired with
  | none, none =>
    let table ← escaping g.timeline.pathTable
    let rows := table.map fun (start, row) =>
      (start, Value.object (row.map fun (stop, names) => (stop, .list (names.map .text))))
    return .json 200 (.object (common ++ [("paths", .object rows)]))
  | some current, some desired =>
    let path ← answering (g.timeline.path current desired)
    return .json 200 (.object (common ++ [("path", .list (path.map fun v => .text v.name))]))
  | _, _ => return .detail 400 (.text "current and desired must be given together")

/-- The dispatcher of a container; a container without a group is answered as such. -/
def dispatching {ι : Type} (settings : Settings) (rt : Runtime ι) : Handler (CustomResource.Dispatcher ι) :=
  match CustomResource.Dispatcher.ofRuntime rt none none settings.trackConversions .standard with
  | .ok d => return d
  | .error (.fault cause) =>
    if cause.family = .value then ending (.reply (.detail 400 (.text cause.message)))
    else ending (.escape (.fault cause))
  | .error failure => ending (.escape failure)

/-- The functions that conversions for requests may call: those of the modules that the settings allow. -/
def functionsOf (settings : Settings) : Functions :=
  { Functions.standard with allowed := Functions.allowing settings.functionModules }

/-- Generates from the container of a question and from those that are nested in its values, which are
registered with it and not with each other. -/
def wiring (settings : Settings) (question : ReviewQuestion) : Handler (Runtime (Option Generation)) := do
  let g ← generating question.container
  let nested ← question.nested.mapM generating
  return .star (functionsOf settings) g nested

/-- Answers a review by the conversions of a container. -/
def reviewing {ι : Type} (settings : Settings) (rt : Runtime ι) (review : Value) : Handler Reply := do
  answering rt.checkFunctions
  let d ← dispatching settings rt
  let (answered, progress) := (d.answer review).run (Progress.start none)
  modify fun m => m.conversion progress
  replying (← escaping answered)

/-- Answers a review for a container and those that are nested in its values. -/
def convert (settings : Settings) (r : Request) : Handler Reply := do
  let question ← payload r Payload.review
  reviewing settings (← wiring settings question) question.review

/-- Answers the definition of the custom resource of a container. -/
def resource (settings : Settings) (r : Request) : Handler Reply := do
  let question ← payload r Payload.resource
  let g ← generating question.container
  let document ← answering (CustomResource.document g question.storageVersion question.webhook
    settings.trackConversions)
  replying document.toValue

end Handler

end Lineage.Service
