import Uplink.Dispatch.Failure
import Uplink.Json.Printer
import Uplink.Webhook.Header

namespace Uplink.Ingress

open Dispatch

inductive Body where
  | json (v : Json)
  | text (s : String)

/-- An answer; the length of its body goes without saying. -/
structure Response where
  status : Nat
  headers : Webhook.Headers
  body : Body

namespace Response

def json (status : Nat) (v : Json) : Response :=
  ⟨status, [("content-type", "application/json")], .json v⟩

def plain (status : Nat) (s : String) : Response :=
  ⟨status, [("content-type", "text/plain; charset=utf-8")], .text s⟩

def notFound : Response := ⟨404, [], .text ""⟩

def methodNotAllowed (allowed : List String) : Response :=
  ⟨405, [("allow", ",".intercalate allowed)], .text ""⟩

def withoutBody (r : Response) : Response := { r with body := .text "" }

end Response

/-- Whether details of failures are kept back. -/
def isProduction (runMode : Option String) : Bool :=
  runMode == some "production" || runMode == some "prod"

inductive Refusal where
  | invalid (reason : String)
  | dispatch (e : DispatchError)

namespace Refusal

def message : Refusal → String
  | .invalid reason => "Validation error: " ++ reason
  | .dispatch e => e.message

def status : Refusal → Nat
  | .invalid _ => 400
  | .dispatch .closed => 503
  | .dispatch (.encode _) => 500
  | .dispatch (.delivery _) => 502

def code : Refusal → String
  | .invalid _ => "VALIDATION_ERROR"
  | .dispatch .closed => "DISPATCHER_CLOSED"
  | .dispatch (.encode _) => "ENCODE_ERROR"
  | .dispatch (.delivery _) => "DELIVERY_FAILED"

/-- What the sender of the request is told. -/
def told (production : Bool) : Refusal → String
  | .invalid reason => reason
  | .dispatch .closed => "Dispatcher is shutting down"
  | .dispatch (.encode fault) =>
    if production then "Internal server error" else encodeMessage fault
  | .dispatch (.delivery failures) =>
    "Delivery failed for: " ++ ", ".intercalate (backendNames failures)

/-- A failed backend as the sender is told of it. -/
def failureJson (production : Bool) (f : BackendFailure) : Json :=
  .object
    [("backend", .text f.backend),
      ("message", .text (if production then "delivery failed" else f.cause.message))]

/-- The failed backends, where there are any. -/
def failuresJson (production : Bool) : Refusal → List (String × Json)
  | .dispatch (.delivery []) => []
  | .dispatch (.delivery failures) =>
    [("failures", .list (failures.map (failureJson production)))]
  | _ => []

def response (production : Bool) (r : Refusal) : Response :=
  .json r.status (.object
    [("error", .object
      ([("code", .text r.code), ("message", .text (r.told production))]
        ++ r.failuresJson production))])

end Refusal

end Uplink.Ingress
