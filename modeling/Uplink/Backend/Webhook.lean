import Uplink.Backend.Error
import Uplink.Webhook.Request

namespace Uplink.Backend

open Notification Webhook

/-- Delivery to a webhook. Events without a URL are not delivered, which is no failure. -/
structure WebhookBackend where
  endpoints : Endpoints
  closed : Bool
  deriving DecidableEq, Repr

namespace WebhookBackend

def name : String := "http"

def new (endpoints : Endpoints) : WebhookBackend := ⟨endpoints, false⟩

/-- What to request for a notification, if anything; a closed backend refuses. -/
def request (b : WebhookBackend) (n : Encoded) : Except BackendError (Option Request) :=
  if b.closed then .error .closed else .ok (b.endpoints.request n)

/-- How a delivery ends, given what came of its request. -/
def settle (url : Url) : Except RequestError Nat → Delivery
  | .error e => .error (.http url.render e.message)
  | .ok code => if 200 ≤ code ∧ code < 300 then .ok () else .error (.status url.render code)

/-- Delivers a notification; gives the requests that were made, too. -/
def send (b : WebhookBackend) (far : FarSide) (n : Encoded) : List Request × Delivery :=
  match b.request n with
  | .error e => ([], .error e)
  | .ok none => ([], .ok ())
  | .ok (some r) =>
    let x := Webhook.run far r
    (x.requests, settle r.url x.result)

/-- Closes the backend, which cannot fail. -/
def close (b : WebhookBackend) : WebhookBackend := { b with closed := true }

end WebhookBackend

end Uplink.Backend
