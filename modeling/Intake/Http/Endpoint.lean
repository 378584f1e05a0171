import Intake.Event.Decode
import Intake.Http.MediaType
import Intake.Ingest.Result
import Intake.Metrics.Series

/-!
# The HTTP service

Events are posted to `/events`. Three pages say that the service is up, and a fourth shows the
metrics if they are exported. `Request.reply` answers every request by itself, except for an event
that can be decoded: that one is ingested first, and `Response.ofResult` tells the outcome. What
went wrong in the store is not told.
-/

namespace Intake.Http

structure Request where
  method : String
  uri : String
  contentType : Option String
  body : List UInt8

/-- The body of a response. -/
inductive Body
  | empty
  | text (s : String)
  /-- Whether the event was inserted. -/
  | inserted (b : Bool)
  | error (message : String)
  /-- The page of metrics. -/
  | metrics
deriving DecidableEq, Repr

structure Response where
  status : Nat
  body : Body
deriving DecidableEq, Repr

namespace Response

def invalidBody (status : Nat) (message : String) : Response := ⟨status, .error message⟩

/-- The answer to an event that cannot be decoded. -/
def ofFault : Json.Fault → Response
  | .malformed => invalidBody 400 "Failed to parse the request body as JSON"
  | .mismatched =>
    invalidBody 422 "Failed to deserialize the JSON body into the target type"

/-- The answer to an event that was decoded. -/
def ofResult : Ingest.Result → Response
  | .ok .inserted => ⟨201, .inserted true⟩
  | .ok .duplicate => ⟨200, .inserted false⟩
  | .error (.invalid flaw) => ⟨422, .error flaw.message⟩
  | .error (.storage _) => ⟨500, .error "internal error"⟩
  | .error (.timeout limit) => ⟨500, .error (Ingest.Error.timeout limit).message⟩

end Response

/-- What the service has at a path. -/
inductive Resource
  | page
  | events
  | metrics
deriving DecidableEq, Repr

/-- The largest body that is read: two mebibytes. -/
def maxBody : Nat := 2097152

/-- A request is answered, or its event is ingested first. -/
inductive Reply
  | respond (r : Response)
  | ingest (raw : RawEvent)

/-- The text up to a query or a fragment. -/
def beforeQuery (cs : List Char) : List Char := cs.takeWhile fun c => c ≠ '?' && c ≠ '#'

/-- The path of a request target. An absolute target has a scheme and an authority in front of it,
and its path may be left out. -/
def pathOf (uri : String) : String :=
  let cs := beforeQuery uri.toList
  let path := match cs.dropWhile (· ≠ ':') with
    | ':' :: '/' :: '/' :: rest => if cs.head? = some '/' then cs else rest.dropWhile (· ≠ '/')
    | _ => cs
  String.ofList (if path = [] then ['/'] else path)

/-- The resource at a path. There is a page of metrics only if they are exported. -/
def resource? (exported : Bool) (path : String) : Option Resource :=
  if path = "/" ∨ path = "/_readiness" ∨ path = "/_liveness" then some .page
  else if path = "/events" then some .events
  else if exported ∧ path = "/metrics" then some .metrics
  else none

namespace Request

/-- The answer to a posted event that is not ingested, or the event. -/
def decode (r : Request) : Reply :=
  if !r.contentType.any namesJson then
    .respond (.invalidBody 415 "Expected request with \x60Content-Type: application/json\x60")
  else if maxBody < r.body.length then
    .respond (.invalidBody 413 "Failed to buffer the request body")
  else
    match RawEvent.decode r.body with
    | .ok raw => .ingest raw
    | .error fault => .respond (.ofFault fault)

def reply (exported : Bool) (r : Request) : Reply :=
  match resource? exported (pathOf r.uri), r.method with
  | none, _ => .respond ⟨404, .empty⟩
  | some .page, "GET" => .respond ⟨200, .text "event ingestion"⟩
  | some .page, "HEAD" => .respond ⟨200, .empty⟩
  | some .metrics, "GET" => .respond ⟨200, .metrics⟩
  | some .metrics, "HEAD" => .respond ⟨200, .empty⟩
  | some .events, "POST" => r.decode
  | some _, _ => .respond ⟨405, .empty⟩

end Request

/-- The labels of a request that was answered with this status. -/
def labels (r : Request) (status : Nat) : List (String × String) :=
  [("method", r.method), ("path", pathOf r.uri), ("status", toString status)]

def requestCount (r : Request) (status : Nat) : Metrics.Series :=
  ⟨"http_requests_total", labels r status⟩

def requestTimer (r : Request) (status : Nat) : Metrics.Series :=
  ⟨"http_requests_duration_seconds", labels r status⟩

/-- The samples of a request. -/
def samples (r : Request) (status : Nat) : List Metrics.Series :=
  [requestCount r status, requestTimer r status]

end Intake.Http
