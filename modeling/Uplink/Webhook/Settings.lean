import Uplink.Json.Record
import Uplink.Notification.Event

namespace Uplink.Webhook

open Json Notification

/-- The settings of a webhook as they are stored. The text for a URL is empty where the event is not
wanted. -/
structure Settings where
  dataUp : String
  join : String
  ack : String
  error : String
  headers : List (String × String)
  deriving DecidableEq, Repr

namespace Settings

def blank : Settings := ⟨"", "", "", "", []⟩

def readText : Document → Read String := Document.asText "a string"

/-- Fields by name; a name that comes again replaces its value. -/
def latest (fields : List (String × String)) : List (String × String) :=
  fields.foldr (fun f kept => if kept.any (·.1 == f.1) then kept else f :: kept) []

def readHeaders (d : Document) : Read (List (String × String)) := do
  let fields ← d.asMembers readText
  return latest fields

def writeHeaders (h : List (String × String)) : Json :=
  .object (h.map fun (name, value) => (name, .text value))

def fieldName : Event → String
  | .rx => "dataUpURL"
  | .join => "joinNotificationURL"
  | .ack => "ackNotificationURL"
  | .error => "errorNotificationURL"

def urlText (s : Settings) : Event → String
  | .rx => s.dataUp
  | .join => s.join
  | .ack => s.ack
  | .error => s.error

def setUrlText (s : Settings) (v : String) : Event → Settings
  | .rx => { s with dataUp := v }
  | .join => { s with join := v }
  | .ack => { s with ack := v }
  | .error => { s with error := v }

def urlField (e : Event) : Json.Field Settings where
  name := fieldName e
  required := false
  read := fun d => do
    let v ← readText d
    return fun s => s.setUrlText v e
  write := fun s => some (.text (s.urlText e))

def record : Record Settings where
  title := "HttpIntegrationSettings"
  blank := blank
  fields := Event.all.map urlField ++
    [{ name := "headers"
       required := false
       read := fun d => do
         let h ← readHeaders d
         return fun s => { s with headers := h }
       write := fun s => some (writeHeaders s.headers) }]

/-- Reads stored settings. Where there are none, nothing is configured. -/
def ofJson : Json → Read Settings
  | .null => .ok blank
  | v => record.read (Document.ofJson v)

end Settings

end Uplink.Webhook
