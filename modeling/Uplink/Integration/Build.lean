import Uplink.Backend.Webhook
import Uplink.Store.Memory
import Uplink.Webhook.Client

namespace Uplink.Integration

open Backend Store Webhook

inductive Kind where
  | http
  deriving DecidableEq, Repr

def Kind.name : Kind → String
  | .http => "HTTP"

inductive IntegrationError where
  | unknownKind (kind : String)
  | unreadable (kind : Kind) (fault : Json.Fault)
  | invalid (kind : Kind) (reason : EndpointError)

def IntegrationError.message : IntegrationError → String
  | .unknownKind kind => "unknown integration kind '" ++ kind ++ "'"
  | .unreadable kind fault => "invalid " ++ kind.name ++ " integration settings: " ++ fault.message
  | .invalid kind reason => "invalid " ++ kind.name ++ " integration settings: " ++ reason.message

/-- The kind of a stored text, which has to be its exact name. -/
def Kind.parse (text : String) : Except IntegrationError Kind :=
  if text = Kind.http.name then .ok .http else .error (.unknownKind text)

def readSettings (settings : Json) : Except IntegrationError Settings :=
  match Settings.ofJson settings with
  | .ok s => .ok s
  | .error fault => .error (.unreadable .http fault)

/-- Checked settings of a webhook. -/
def readEndpoints (s : Settings) : Except IntegrationError Endpoints :=
  match Endpoints.ofSettings s with
  | .ok e => .ok e
  | .error reason => .error (.invalid .http reason)

/-- The verdict on a row, where the client has room for its header fields. -/
def build (row : Store.Integration) : Except IntegrationError WebhookBackend := do
  let _ ← Kind.parse row.kind
  let settings ← readSettings row.settings
  let endpoints ← readEndpoints settings
  .ok (.new endpoints)

/-- A backend with the endpoints, or why there is none. -/
def opened (checked : Except EndpointError Endpoints) : Except IntegrationError WebhookBackend :=
  match checked with
  | .ok e => .ok (.new e)
  | .error reason => .error (.invalid .http reason)

/-- Builds a row with a client. There is no result where the program breaks off. -/
def build? (c : Client) (row : Store.Integration) :
    Option (Except IntegrationError WebhookBackend) :=
  match Kind.parse row.kind with
  | .error e => some (.error e)
  | .ok _ =>
    match readSettings row.settings with
    | .error e => some (.error e)
    | .ok s => (c.endpoints? s).map opened

/-- An integration that could not be built, by the kind that is stored. -/
structure ConfigurationFailure where
  kind : String
  error : IntegrationError

def ConfigurationFailure.message (f : ConfigurationFailure) : String :=
  f.kind ++ " integration: " ++ f.error.message

end Uplink.Integration
