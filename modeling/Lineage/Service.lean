import Lineage.Service.Handlers

namespace Lineage.Service

/-- What the service can be asked at a path. -/
inductive Route where
  | health
  | liveness
  | snapshot
  | exposition
  | generate
  | bundle
  | chains
  | render
  | paths
  | convert
  | resource
  | schema
  | guide
  deriving DecidableEq, Repr

/-- The methods of a route. The description of the service can be asked for by its headers alone. -/
def Route.methods : Route → List String
  | .health | .liveness | .snapshot | .exposition => ["GET"]
  | .schema | .guide => ["GET", "HEAD"]
  | _ => ["POST"]

/-- The paths of the service. -/
def routes : List (String × Route) :=
  [("/openapi.json", .schema),
    ("/docs", .guide),
    ("/docs/oauth2-redirect", .guide),
    ("/redoc", .guide),
    ("/health", .health),
    ("/api/v1/health/live", .liveness),
    ("/metrics", .snapshot),
    ("/api/v1/metrics/snapshot", .snapshot),
    ("/metrics/prometheus", .exposition),
    ("/api/v1/generate", .generate),
    ("/api/v1/generate/module", .bundle),
    ("/api/v1/chains", .chains),
    ("/api/v1/render", .render),
    ("/api/v1/paths", .paths),
    ("/api/v1/convert", .convert),
    ("/api/v1/crd", .resource)]

/-- A path without the slashes at its end. -/
def withoutSlashes (path : String) : String :=
  String.ofList (path.toList.reverse.dropWhile (· == '/')).reverse

/-- A path without a line feed at its end. -/
def withoutBreak (path : String) : String :=
  if path.toList.getLast? == some '\n' then String.ofList path.toList.dropLast else path

/-- The route at a path, at the end of which a line feed does not matter. -/
def routeAt? (path : String) : Option Route :=
  routes.lookup (withoutBreak path)

/-- Does what a route asks for. -/
def Route.answer (settings : Settings) (r : Request) : Route → Handler Reply
  | .health => Handler.health "health" "healthy"
  | .liveness => Handler.health "health_live" "alive"
  | .snapshot => Handler.snapshot
  | .exposition => Handler.exposition
  | .generate => Handler.generate r
  | .bundle => Handler.bundle r
  | .chains => Handler.chains r
  | .render => Handler.render settings r
  | .paths => Handler.paths r
  | .convert => Handler.convert settings r
  | .resource => Handler.resource settings r
  | .schema => return .page "application/json"
  | .guide => return .page "text/html; charset=utf-8"

/-- The answer where no route has the path: one without slashes at its end may have. -/
def elsewhere (host : String) (t : Target) : Reply :=
  let path := withoutSlashes t.path
  if path != t.path && (routeAt? path).isSome then .redirect (t.location host path)
  else .notFound

/-- Answers a request at a host by its route. -/
def dispatch (settings : Settings) (host : String) (r : Request) : Handler Reply :=
  match routeAt? r.target.path with
  | some route =>
    if route.methods.contains r.method then route.answer settings r
    else return .notAllowed route.methods
  | none => return elsewhere host r.target

/-- The answer to a request that a failure escaped from. It names the request in its content. -/
def escaped (id : String) (f : Failure) : Response :=
  let (status, detail) :=
    if f.isDomain then (f.status.toNat, f.toValue)
    else (500, .text "Internal Server Error")
  ⟨status, .json (.object [("detail", detail), ("request_id", .text id)]), some "application/json",
    none, none, none⟩

/-- An answer with its headers. Where only the headers are asked for there is no content. -/
def Reply.response (reply : Reply) (method id : String) : Response :=
  let content := if method == "HEAD" then .empty else reply.content
  ⟨reply.status, content, reply.mediaType, some id, reply.location, reply.allow⟩

/-- Answers a request. It has the identifier that it brings or else a fresh one, and is counted once
it is answered, unless a failure escaped or the answer cannot be written. -/
def handle (settings : Settings) (host fresh : String) (r : Request) : StateM Metrics Response := do
  let id := (r.header? "x-request-id").getD fresh
  match ← (dispatch settings host r).run with
  | .error (.escape f) => return escaped id f
  | .ok reply | .error (.reply reply) =>
    if !reply.isSendable then return escaped id (.fault (.raised "unwritable"))
    modify fun m => m.request r.method r.target.countedPath reply.status
    return reply.response r.method id

end Lineage.Service
