import Uplink.Text.Blank
import Uplink.Url.Reader
import Uplink.Webhook.Header
import Uplink.Webhook.Settings

namespace Uplink.Webhook

open Notification

inductive EndpointError where
  | badHeaderName (name : String)
  | badHeaderValue (name : String)
  | badUrl (field : String) (reason : Url.UrlError)
  | unsupportedScheme (field scheme : String)
  deriving DecidableEq, Repr

def EndpointError.message : EndpointError → String
  | .badHeaderName name => "invalid header name '" ++ name ++ "'"
  | .badHeaderValue name => "invalid value for header '" ++ name ++ "'"
  | .badUrl field reason => field ++ ": " ++ reason.message
  | .unsupportedScheme field scheme => field ++ ": unsupported scheme '" ++ scheme ++ "'"

structure Endpoints where
  dataUp : Option Url
  join : Option Url
  ack : Option Url
  error : Option Url
  headers : Headers
  deriving DecidableEq, Repr

namespace Endpoints

def url? (e : Endpoints) : Event → Option Url
  | .rx => e.dataUp
  | .join => e.join
  | .ack => e.ack
  | .error => e.error

def any (e : Endpoints) : Bool := Event.all.any fun event => (e.url? event).isSome

def checkHeaders (done : Headers) : List (String × String) → Except EndpointError Headers
  | [] => .ok done
  | (name, value) :: rest =>
    match headerName? name with
    | none => .error (.badHeaderName name)
    | some lower =>
      if isHeaderValue value then checkHeaders (done.set lower value) rest
      else .error (.badHeaderValue name)

/-- Checks the text of a URL, which is read by `parse`. Blanks around it do not count. -/
def checkUrl (parse : String → Except Url.UrlError Url.Target) (field text : String) :
    Except EndpointError (Option Url) :=
  match Text.trim text.toList with
  | [] => .ok none
  | trimmed =>
    match parse (String.ofList trimmed) with
    | .error reason => .error (.badUrl field reason)
    | .ok (.other scheme) => .error (.unsupportedScheme field scheme)
    | .ok (.web url) =>
      if url.scheme = "http" ∨ url.scheme = "https" then .ok (some url)
      else .error (.unsupportedScheme field url.scheme)

def check (parse : String → Except Url.UrlError Url.Target) (s : Settings) (e : Event) :
    Except EndpointError (Option Url) :=
  checkUrl parse (Settings.fieldName e) (s.urlText e)

/-- Puts checked URLs to checked header fields. -/
def withUrls (parse : String → Except Url.UrlError Url.Target) (s : Settings) (headers : Headers) :
    Except EndpointError Endpoints := do
  let dataUp ← check parse s .rx
  let join ← check parse s .join
  let ack ← check parse s .ack
  let error ← check parse s .error
  .ok { dataUp, join, ack, error, headers }

/-- The verdict on settings, whose header fields the client has room for. -/
def judge (parse : String → Except Url.UrlError Url.Target) (s : Settings) :
    Except EndpointError Endpoints :=
  checkHeaders [] s.headers >>= withUrls parse s

def ofSettings (s : Settings) : Except EndpointError Endpoints := judge Url.parse s

end Endpoints

end Uplink.Webhook
