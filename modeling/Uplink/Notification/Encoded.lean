import Uplink.Notification.Wire

namespace Uplink.Notification

open Device

/-- A notification in the form that every receiver gets. -/
structure Encoded where
  applicationId : Int64
  devEui : Eui64
  event : Event
  body : String
  deriving DecidableEq, Repr

/-- The topic on which an event of a device is published. -/
def topic (applicationId : Int64) (devEui : Eui64) (event : Event) : String :=
  "application/" ++ Wire.renderInt64 applicationId ++ "/node/" ++ devEui.render ++ "/" ++ event.name

def Encoded.topic (n : Encoded) : String := Notification.topic n.applicationId n.devEui n.event

def Payload.encode (p : Payload) : Encoded where
  applicationId := p.applicationId
  devEui := p.devEui
  event := p.event
  body := Json.compact p.toJson

end Uplink.Notification
