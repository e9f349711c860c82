import Lineage.Conversion.Runtime
import Lineage.CustomResource.Definition
import Lineage.Room

namespace Lineage.CustomResource

/-- Answers reviews: requests to convert the objects of one custom resource to another version. -/
structure Dispatcher (ι : Type) where
  runtime : Runtime ι
  group : String
  kind : String
  track : Bool
  room : Room

namespace Dispatcher

variable {ι : Type}

/-- The dispatcher of a container. The group and the kind are those that are given, or those that the
container names. -/
def ofRuntime (rt : Runtime ι) (group kind : Option String) (track : Bool) (room : Room) :
    Except Failure (Dispatcher ι) := do
  let g := rt.generation
  let options := g.validated.container.resource
  match filled? group <|> filled? (options.map (·.group)) with
  | none => .error (.fault (.noGroup g.name))
  | some group =>
    let kind ← match filled? kind, options with
      | some kind, _ => pure kind
      | none, some _ => (namesOf g).map (·.kind)
      | none, none => pure g.name
    return ⟨rt, group, kind, track, room⟩

/-- The timeline of the container. -/
def timeline (d : Dispatcher ι) : Timeline :=
  d.runtime.generation.timeline

/-- The version that a field of a request names; the group must be that of the dispatcher. -/
def versionOf (d : Dispatcher ι) (field : String) (v : Value) : Except ConversionFault String :=
  match v with
  | .text s =>
    match Text.cutLast '/' s.toList with
    | some (group, version) =>
      let name := String.ofList version
      if String.ofList group == d.group && d.timeline.has name then .ok name
      else .error (.versionUnknown field (Text.quoted s) d.kind)
    | none => .error (.versionUnknown field (Text.quoted s) d.kind)
  | _ => .error (.versionNotText field)

/-- The status of an object, if it is a map. -/
def statusOf (fields : Entries Value Value) : Entries Value Value :=
  match Value.member? fields "status" with
  | some (.map status) => status
  | _ => []

/-- The tracker that the status of an object records, if dropped values are tracked. -/
def trackerOf (d : Dispatcher ι) (fields : Entries Value Value) : Except Fault (Option Tracker) :=
  if d.track then
    (Tracker.ofValue ((Value.member? (statusOf fields) "changedValues").getD .null)).map some
  else .ok none

/-- The part of an object that is converted. -/
def specOf (fields : Entries Value Value) : Value :=
  ((Value.member? fields "spec").filter Value.truthy).getD (.map [])

/-- Converts the contents of objects, with the room that there is. -/
def converter (d : Dispatcher ι) : Converter :=
  d.runtime.convertOn d.room.toDepths d.room.conversions

/-- Does a conversion with a tracker of its own, and gives what is left in it too. -/
def tracking (tracker : Option Tracker) (act : Run Value) : Run (Value × Option Tracker) := fun p =>
  let (result, q) := act { p with tracker := tracker }
  (result.map (·, q.tracker), { q with tracker := p.tracker })

/-- Converts an object to a version. It is copied first, for which it must not be too deep. -/
def convertObject (d : Dispatcher ι) (v : Value) (desired : String) : Run Value :=
  match v with
  | .map fields => do
    match Value.member? fields "apiVersion" with
    | none => Run.refuse .objectWithoutVersion
    | some version =>
      let current ← Run.ofExcept (d.versionOf "apiVersion" version)
      let _ ← Run.ofExcept (d.room.copy (.map fields))
      if current = desired then return .map fields
      let tracker ← Run.ofExcept (d.trackerOf fields)
      let (spec, tracker) ← tracking tracker (d.converter current desired (specOf fields) "")
      let fields := Entries.put fields (.text "spec") spec
      let fields := Entries.put fields (.text "apiVersion") (.text s!"{d.group}/{desired}")
      match tracker with
      | none => return .map fields
      | some t =>
        let changed ← Run.ofExcept t.toValue
        let status := Entries.put (statusOf fields) (.text "changedValues") changed
        return .map (Entries.put fields (.text "status") (.map status))
  | _ => Run.refuse .objectNotMap

/-- Converts objects to the version that is asked for. -/
def convertObjects (d : Dispatcher ι) (objects : List Value) (desired : Value) : Run (List Value) := do
  let version ← Run.ofExcept (d.versionOf "desiredAPIVersion" desired)
  objects.mapM fun v => d.convertObject v version

end Dispatcher

/-- What a review asks for. -/
structure Request where
  id : String
  desired : String
  objects : List Value
  deriving Repr

/-- The request of a review. -/
def requestOf (review : Value) : Except ConversionFault Request :=
  match review with
  | .map fields =>
    match Value.member? fields "request" with
    | some (.map request) => do
      let id ← match Value.member? request "uid" with
        | some (.text id) => if id.isEmpty then .error .requestWithoutId else .ok id
        | _ => .error .requestWithoutId
      let desired ← match Value.member? request "desiredAPIVersion" with
        | some (.text desired) => .ok desired
        | _ => .error .requestWithoutVersion
      match Value.member? request "objects" with
      | some (.list objects) => return ⟨id, desired, objects⟩
      | _ => .error .requestWithoutObjects
    | _ => .error .reviewWithoutRequest
  | _ => .error .reviewNotMap

/-- The answer to a request that failed. -/
def failureResponse (id : Value) (cause : ConversionFault) : Value :=
  let message := Value.text cause.message
  .object [("uid", id), ("result", .object [("status", .text "Failure"), ("message", message),
    ("reason", message), ("code", .int cause.status)]), ("convertedObjects", .list [])]

/-- The answer to a request that succeeded. -/
def successResponse (id : String) (objects : List Value) : Value :=
  .object [("uid", .text id), ("result", .object [("status", .text "Success")]),
    ("convertedObjects", .list objects)]

/-- The identifier of a request that cannot be read otherwise, as a text. -/
def idText (room : Room) (review : Value) : Except Fault Value :=
  match (review.get? "request").bind fun request => request.get? "uid" with
  | some id => if id.truthy then room.write id else .ok (.text "")
  | none => .ok (.text "")

/-- The version of the interface that an answer is given in: that of the review. -/
def reviewVersion (review : Value) : Value :=
  match review.get? "apiVersion" with
  | some (.text s) => .text s
  | _ => .text apiVersion

/-- Answers the request of a review: with all objects converted, or with the reason why one of them is
not. -/
def Dispatcher.respond {ι : Type} (d : Dispatcher ι) (request : Request) : Run Value := do
  try
    return successResponse request.id (← d.convertObjects request.objects (.text request.desired))
  catch
    | .conversion cause => return failureResponse (.text request.id) cause
    | other => throw other

/-- Answers a review. One without a request to respond to is answered by what it lacks. -/
def Dispatcher.answer {ι : Type} (d : Dispatcher ι) (review : Value) : Run Value := do
  let response ← match requestOf review with
    | .ok request => d.respond request
    | .error cause => (failureResponse · cause) <$> Run.ofExcept (idText d.room review)
  return .object [("apiVersion", reviewVersion review), ("kind", .text "ConversionReview"),
    ("response", response)]

end Lineage.CustomResource
