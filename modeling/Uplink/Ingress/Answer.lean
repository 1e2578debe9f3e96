import Uplink.Ingress.MediaType
import Uplink.Ingress.Response
import Uplink.Ingress.Route
import Uplink.Service.Basic
import Uplink.Time.Timestamp

namespace Uplink.Ingress

open Dispatch Notification

structure Request where
  method : String
  target : String
  headers : Webhook.Headers
  /-- The text of the body. A body of other bytes is not among these requests. -/
  body : String
  time : Time.Timestamp

inductive BodyFault where
  | notJson
  | tooLong
  | unreadable (fault : Json.Fault)

def bodyMax : Nat := 2 * 1024 * 1024

namespace BodyFault

def response : BodyFault → Response
  | .notJson => .plain 415 "Expected request with `Content-Type: application/json`"
  | .tooLong => .plain 413 "Failed to buffer the request body: length limit exceeded"
  | .unreadable fault =>
    match fault.category with
    | .grammar | .ended =>
      .plain 400 ("Failed to parse the request body as JSON: " ++ fault.located)
    | .shape =>
      .plain 422 ("Failed to deserialize the JSON body into the target type: " ++ fault.located)

end BodyFault

namespace Request

/-- The first header field of a name, which is compared without case. -/
def header? (r : Request) (name : String) : Option String :=
  let named (field : String × String) : Bool :=
    String.ofList (field.1.toList.map Char.toLower) == name
  (r.headers.find? named).map (·.2)

/-- Type fields are read where they are visible ASCII. -/
def isVisible (c : Char) : Bool := c == '\t' || (0x20 ≤ c.toNat && c.toNat < 0x7F)

def saysJson (r : Request) : Bool :=
  match r.header? "content-type" with
  | some value =>
    value.toList.all isVisible && (MediaType.ofChars value.toList).any MediaType.isJson
  | none => false

def payload (r : Request) (event : Event) : Except BodyFault Payload :=
  if !r.saysJson then .error .notJson
  else if bodyMax < r.body.utf8ByteSize then .error .tooLong
  else
    match Payload.ofText event r.body with
    | .ok p => .ok p
    | .error fault => .error (.unreadable fault)

end Request

def dispatcherStats (s : Dispatch.Stats) : Json :=
  .object
    [("total_sent", .int s.totalSent), ("total_delivered", .int s.totalDelivered),
      ("total_failed", .int s.totalFailed), ("broker_failures", .int s.brokerFailures),
      ("integration_deliveries", .int s.integrationDeliveries),
      ("integration_failures", .int s.integrationFailures),
      ("storage_failures", .int s.storageFailures)]

def registryStats (s : Registry.Stats) : Json :=
  .object
    [("hits", .int s.hits), ("loads", .int s.loads), ("load_failures", .int s.loadFailures),
      ("integration_errors", .int s.integrationErrors)]

def condition (s : Service) : String :=
  if s.dispatcher.closed then "shutting_down"
  else if s.publisher.connected then "healthy"
  else "degraded"

def version : String := "0.1.0"

def health (s : Service) : Response :=
  .json 200 (.object
    [("status", .text (condition s)), ("version", .text version),
      ("uptime_seconds", .int s.registry.now.seconds),
      ("broker", .object [("connected", .bool s.publisher.connected)]),
      ("dispatcher", .object
        [("closed", .bool s.dispatcher.closed), ("stats", dispatcherStats s.dispatcher.stats)]),
      ("integrations", .object
        [("cached_applications", .int s.registry.cachedApplications),
          ("stats", registryStats s.registry.stats)])])

/-- The report of the metrics, one line each. -/
def metrics (s : Service) : Response :=
  let text := String.join (s.metrics.render.map (· ++ "\n"))
  ⟨200, [("content-type", "text/plain; version=0.0.4; charset=utf-8")], .text text⟩

def reloaded (application : Option Int64) (invalidated : Bool) : Response :=
  .json 200 (.object
    [("success", .bool true),
      ("application_id", (application.map fun a => Json.int a.toInt).getD .null),
      ("invalidated", .bool invalidated)])

def delivered (time : Time.Timestamp) : Response :=
  .json 200 (.object [("success", .bool true), ("timestamp", .text time.render)])

abbrev Answered := Service × Response

/-- Sends the notification of a body that was accepted. -/
def notify (production : Bool) (s : Service) (time : Time.Timestamp) (p : Payload) : Answered :=
  if p.applicationId ≤ 0 then
    (s, (Refusal.invalid "applicationID must be a positive integer").response production)
  else
    let (s, sent) := s.send p.encode
    match sent with
    | .ok _ => (s, delivered time)
    | .error e => (s, (Refusal.dispatch e).response production)

def answerRoute (production : Bool) (s : Service) (r : Request) : Route → Answered
  | .health => (s, health s)
  | .metrics => (s.sampled, metrics s.sampled)
  | .notify event =>
    match r.payload event with
    | .ok p => notify production s r.time p
    | .error fault => (s, fault.response)
  | .reload segment =>
    match applicationOf segment with
    | .ok application =>
      let (s, invalidated) := s.invalidate application
      (s, reloaded (some application) invalidated)
    | .error fault => (s, .plain 400 fault.message)
  | .reloadAll => (s.invalidateAll, reloaded none (0 < s.registry.cachedApplications))

/-- Answers a request. The path is looked at first, then the method, then the type, the length and
the content of the body, and last whether the number of the application is positive. -/
def answer (production : Bool) (s : Service) (r : Request) : Answered :=
  match Route.ofTarget r.target with
  | none => (s, .notFound)
  | some route =>
    if route.methods.contains r.method then
      let (s, response) := answerRoute production s r route
      (s, if r.method = "HEAD" then response.withoutBody else response)
    else (s, .methodNotAllowed route.methods)

end Uplink.Ingress
