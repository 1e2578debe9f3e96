import Uplink.Notification.Encoded
import Uplink.Url.Join
import Uplink.Webhook.Endpoints

namespace Uplink.Webhook

open Notification

inductive Method where
  | post
  | get
  deriving DecidableEq, Repr

structure Request where
  method : Method
  url : Url
  headers : Headers
  body : String
  deriving DecidableEq, Repr

def contentType : String × String := ("content-type", "application/json")

/-- The request that delivers a notification: the configured fields, and behind them the type of
the body. -/
def Endpoints.request (e : Endpoints) (n : Encoded) : Option Request :=
  (e.url? n.event).map fun url => ⟨.post, url, e.headers ++ [contentType], n.body⟩

inductive Reply where
  | answered (status : Nat) (location : Option String)
  /-- No answer: the far side cannot be reached, hangs up, or takes too long. -/
  | failed
  deriving DecidableEq, Repr

/-- The far side: its reply may hang on all requests that came before. -/
abbrev FarSide := List Request → Request → Reply

def redirectLimit : Nat := 10

def describesBody (name : String) : Bool :=
  name == "content-type" || name == "content-length" || name == "content-encoding"
    || name == "transfer-encoding"

/-- The request a redirection leads to, where its status is one that is followed. -/
def Request.redirected (r : Request) (status : Nat) (url : Url) : Option Request :=
  if status = 301 ∨ status = 302 ∨ status = 303 then
    some ⟨.get, url, r.headers.filter fun f => !describesBody f.1, ""⟩
  else if status = 307 ∨ status = 308 then some { r with url }
  else none

inductive RequestError where
  | sending (url : Url)
  | redirecting (url : Url)
  deriving DecidableEq, Repr

def RequestError.message : RequestError → String
  | .sending url => "error sending request for url (" ++ url.anonymous.render ++ ")"
  | .redirecting url => "error following redirect for url (" ++ url.anonymous.render ++ ")"

/-- The requests that were made, and the status at the end. -/
structure Exchange where
  requests : List Request
  result : Except RequestError Nat

/-- Makes a request and follows at most `left` redirections. -/
def exchange (far : FarSide) (made : List Request) (r : Request) : (left : Nat) → Exchange
  | 0 =>
    match far made r with
    | .failed => ⟨made ++ [r], .error (.sending r.url)⟩
    | .answered status location =>
      match redirection r status location with
      | some _ => ⟨made ++ [r], .error (.redirecting r.url)⟩
      | none => ⟨made ++ [r], .ok status⟩
  | left + 1 =>
    match far made r with
    | .failed => ⟨made ++ [r], .error (.sending r.url)⟩
    | .answered status location =>
      match redirection r status location with
      | some next => exchange far (made ++ [r]) next left
      | none => ⟨made ++ [r], .ok status⟩
where
  /-- The next request after an answer, if it is a redirection to a place on the web. -/
  redirection (r : Request) (status : Nat) (location : Option String) : Option Request :=
    location.bind fun text =>
      match r.url.join text with
      | .ok (.web url) => r.redirected status url
      | _ => none

/-- Makes a request and follows redirections. -/
def run (far : FarSide) (r : Request) : Exchange := exchange far [] r redirectLimit

def unreachable : FarSide := fun _ _ => .failed

end Uplink.Webhook
