import Uplink.Json.Printer
import Uplink.Json.Record
import Uplink.Notification.Payload
import Uplink.Text.Base64
import Uplink.Text.Utf8

namespace Uplink.Notification

open Device Json Text Time

namespace Wire

/-- A text that has to follow a notation of its own. -/
def readNotation {α ε : Type} (expected : String) (parse : String → Except ε α)
    (message : ε → String) (d : Document) : Read α := do
  match parse (← d.asText expected) with
  | .ok a => .ok a
  | .error e => fail (.refused (message e))

def readIdentifier (n : Nat) : Document → Read (Identifier n) :=
  readNotation "a string" (Identifier.parse n) Identifier.Fault.message

def writeIdentifier {n : Nat} (id : Identifier n) : Json := .text id.render

/-- The number of an application, a signed 64-bit number in decimal digits. -/
def parseInt64 (s : String) : Except Decimal.Fault Int64 :=
  (Decimal.readInt Number.intMax s.toList).map Int64.ofInt

def renderInt64 (n : Int64) : String := String.ofList (Decimal.ofInt n.toInt)

def readNumberText : Document → Read Int64 :=
  readNotation "a string" parseInt64 Decimal.Fault.message

def readTime : Document → Read Timestamp :=
  readNotation "an RFC 3339 formatted date and time string" Timestamp.parse
    Timestamp.Fault.message

def readData : Document → Read (List UInt8) :=
  readNotation "a base64 encoded string" (fun s => Base64.decode (Utf8.encode s))
    Base64.Fault.message

def readText : Document → Read String := Document.asText "a string"

def readUInt32 (d : Document) : Read UInt32 := do
  return UInt32.ofNat (← d.asInt 0 4294967295 "u32").toNat

def readUInt8 (d : Document) : Read UInt8 := do
  return UInt8.ofNat (← d.asInt 0 255 "u8").toNat

def readInt32 (d : Document) : Read Int32 := do
  return Int32.ofInt (← d.asInt (-2147483648) 2147483647 "i32")

def writeUInt32 (n : UInt32) : Json := .int n.toNat

def writeNonzero (n : UInt32) : Option Json := if n = 0 then none else some (writeUInt32 n)

def field {σ α : Type} (name : String) (required : Bool) (read : Document → Read α)
    (write : α → Json) (get : σ → α) (set : α → σ → σ) : Json.Field σ :=
  { name, required
    read := fun d => return set (← read d)
    write := fun a => some (write (get a)) }

/-- A field that is left out for some values. -/
def sparse {σ α : Type} (name : String) (read : Document → Read α)
    (write : α → Option Json) (get : σ → α) (set : α → σ → σ) : Json.Field σ :=
  { name
    required := false
    read := fun d => return set (← read d)
    write := fun a => write (get a) }

end Wire

open Wire

def RxInfo.blank : RxInfo := ⟨default, none, 0, 0, "", 0, 0, 0⟩

def RxInfo.record : Record RxInfo where
  title := "RxInfo"
  blank := RxInfo.blank
  fields :=
    [field "mac" true (readIdentifier 8) writeIdentifier
      RxInfo.mac fun v r => { r with mac := v },
    sparse "time" (Document.asOptional readTime) (·.map fun t => .text t.render)
      RxInfo.time fun v r => { r with time := v },
    field "rssi" false readInt32 (fun n => .int n.toInt)
      RxInfo.rssi fun v r => { r with rssi := v },
    field "loRaSNR" false Document.asFloat (fun x => .number (.float x))
      RxInfo.snr fun v r => { r with snr := v },
    field "name" false readText .text
      RxInfo.name fun v r => { r with name := v },
    field "latitude" false Document.asFloat (fun x => .number (.float x))
      RxInfo.latitude fun v r => { r with latitude := v },
    field "longitude" false Document.asFloat (fun x => .number (.float x))
      RxInfo.longitude fun v r => { r with longitude := v },
    field "altitude" false Document.asFloat (fun x => .number (.float x))
      RxInfo.altitude fun v r => { r with altitude := v }]

def DataRate.blank : DataRate := ⟨"", 0, 0, 0⟩

def DataRate.record : Record DataRate where
  title := "DataRate"
  blank := DataRate.blank
  fields :=
    [field "modulation" false readText .text
      DataRate.modulation fun v r => { r with modulation := v },
    field "bandwidth" false readUInt32 writeUInt32
      DataRate.bandwidth fun v r => { r with bandwidth := v },
    sparse "spreadFactor" readUInt32 writeNonzero
      DataRate.spreadFactor fun v r => { r with spreadFactor := v },
    sparse "bitrate" readUInt32 writeNonzero
      DataRate.bitrate fun v r => { r with bitrate := v }]

def TxInfo.blank : TxInfo := ⟨0, DataRate.blank, false, ""⟩

def TxInfo.record : Record TxInfo where
  title := "TxInfo"
  blank := TxInfo.blank
  fields :=
    [field "frequency" false readUInt32 writeUInt32
      TxInfo.frequency fun v r => { r with frequency := v },
    field "dataRate" false DataRate.record.read DataRate.record.write
      TxInfo.dataRate fun v r => { r with dataRate := v },
    field "adr" false Document.asBool .bool
      TxInfo.adaptive fun v r => { r with adaptive := v },
    field "codeRate" false readText .text
      TxInfo.codeRate fun v r => { r with codeRate := v }]

def DataUp.blank : DataUp := ⟨0, "", "", default, [], TxInfo.blank, 0, 0, []⟩

def DataUp.record : Record DataUp where
  title := "DataUpPayload"
  blank := DataUp.blank
  fields :=
    [field "applicationID" true readNumberText (fun n => .text (renderInt64 n))
      DataUp.applicationId fun v r => { r with applicationId := v },
    field "applicationName" false readText .text
      DataUp.applicationName fun v r => { r with applicationName := v },
    field "nodeName" false readText .text
      DataUp.nodeName fun v r => { r with nodeName := v },
    field "devEUI" true (readIdentifier 8) writeIdentifier
      DataUp.devEui fun v r => { r with devEui := v },
    field "rxInfo" false (Document.asList RxInfo.record.read)
      (fun l => .list (l.map RxInfo.record.write))
      DataUp.rxInfo fun v r => { r with rxInfo := v },
    field "txInfo" false TxInfo.record.read TxInfo.record.write
      DataUp.txInfo fun v r => { r with txInfo := v },
    field "fCnt" false readUInt32 writeUInt32
      DataUp.counter fun v r => { r with counter := v },
    field "fPort" false readUInt8 (fun n => .int n.toNat)
      DataUp.port fun v r => { r with port := v },
    field "data" false readData (fun bytes => .text (Base64.encode bytes))
      DataUp.data fun v r => { r with data := v }]

def Join.blank : Join := ⟨0, "", "", default, default⟩

def Join.record : Record Join where
  title := "JoinNotification"
  blank := Join.blank
  fields :=
    [field "applicationID" true readNumberText (fun n => .text (renderInt64 n))
      Join.applicationId fun v r => { r with applicationId := v },
    field "applicationName" false readText .text
      Join.applicationName fun v r => { r with applicationName := v },
    field "nodeName" false readText .text
      Join.nodeName fun v r => { r with nodeName := v },
    field "devEUI" true (readIdentifier 8) writeIdentifier
      Join.devEui fun v r => { r with devEui := v },
    field "devAddr" false (readIdentifier 4) writeIdentifier
      Join.devAddr fun v r => { r with devAddr := v }]

def Ack.blank : Ack := ⟨0, "", "", default, false, 0⟩

def Ack.record : Record Ack where
  title := "AckNotification"
  blank := Ack.blank
  fields :=
    [field "applicationID" true readNumberText (fun n => .text (renderInt64 n))
      Ack.applicationId fun v r => { r with applicationId := v },
    field "applicationName" false readText .text
      Ack.applicationName fun v r => { r with applicationName := v },
    field "nodeName" false readText .text
      Ack.nodeName fun v r => { r with nodeName := v },
    field "devEUI" true (readIdentifier 8) writeIdentifier
      Ack.devEui fun v r => { r with devEui := v },
    field "acknowledged" false Document.asBool .bool
      Ack.acknowledged fun v r => { r with acknowledged := v },
    field "fCnt" false readUInt32 writeUInt32
      Ack.counter fun v r => { r with counter := v }]

def ErrorReport.blank : ErrorReport := ⟨0, "", "", default, "", "", 0⟩

def ErrorReport.record : Record ErrorReport where
  title := "ErrorNotification"
  blank := ErrorReport.blank
  fields :=
    [field "applicationID" true readNumberText (fun n => .text (renderInt64 n))
      ErrorReport.applicationId fun v r => { r with applicationId := v },
    field "applicationName" false readText .text
      ErrorReport.applicationName fun v r => { r with applicationName := v },
    field "nodeName" false readText .text
      ErrorReport.nodeName fun v r => { r with nodeName := v },
    field "devEUI" true (readIdentifier 8) writeIdentifier
      ErrorReport.devEui fun v r => { r with devEui := v },
    field "type" false readText .text
      ErrorReport.kind fun v r => { r with kind := v },
    field "error" false readText .text
      ErrorReport.error fun v r => { r with error := v },
    sparse "fCnt" readUInt32 writeNonzero
      ErrorReport.counter fun v r => { r with counter := v }]

namespace Payload

def toJson : Payload → Json
  | dataUp p => DataUp.record.write p
  | join p => Join.record.write p
  | ack p => Ack.record.write p
  | error p => ErrorReport.record.write p

/-- Reads the payload that belongs to an event. -/
def read : Event → Document → Read Payload
  | .rx, d => (DataUp.record.read d).map dataUp
  | .join, d => (Join.record.read d).map join
  | .ack, d => (Ack.record.read d).map ack
  | .error, d => (ErrorReport.record.read d).map error

def ofText (event : Event) (text : String) : Read Payload := Json.readText (read event) text

end Payload

end Uplink.Notification
