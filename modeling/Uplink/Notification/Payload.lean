import Uplink.Device.Identifier
import Uplink.Notification.Event
import Uplink.Time.Timestamp

namespace Uplink.Notification

open Device Time

structure RxInfo where
  mac : Eui64
  time : Option Timestamp
  rssi : Int32
  snr : Float
  name : String
  latitude : Float
  longitude : Float
  altitude : Float

structure DataRate where
  modulation : String
  bandwidth : UInt32
  spreadFactor : UInt32
  bitrate : UInt32

structure TxInfo where
  frequency : UInt32
  dataRate : DataRate
  adaptive : Bool
  codeRate : String

structure DataUp where
  applicationId : Int64
  applicationName : String
  nodeName : String
  devEui : Eui64
  rxInfo : List RxInfo
  txInfo : TxInfo
  counter : UInt32
  port : UInt8
  data : List UInt8

structure Join where
  applicationId : Int64
  applicationName : String
  nodeName : String
  devEui : Eui64
  devAddr : DevAddr

structure Ack where
  applicationId : Int64
  applicationName : String
  nodeName : String
  devEui : Eui64
  acknowledged : Bool
  counter : UInt32

structure ErrorReport where
  applicationId : Int64
  applicationName : String
  nodeName : String
  devEui : Eui64
  kind : String
  error : String
  counter : UInt32

inductive Payload where
  | dataUp (p : DataUp)
  | join (p : Join)
  | ack (p : Ack)
  | error (p : ErrorReport)

namespace Payload

def event : Payload → Event
  | dataUp _ => .rx
  | join _ => .join
  | ack _ => .ack
  | error _ => .error

def applicationId : Payload → Int64
  | dataUp p => p.applicationId
  | join p => p.applicationId
  | ack p => p.applicationId
  | error p => p.applicationId

def devEui : Payload → Eui64
  | dataUp p => p.devEui
  | join p => p.devEui
  | ack p => p.devEui
  | error p => p.devEui

end Payload

end Uplink.Notification
