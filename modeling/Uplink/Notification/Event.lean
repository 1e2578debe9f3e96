import Uplink.Json.Decode

namespace Uplink.Notification

inductive Event where
  | rx
  | join
  | ack
  | error
  deriving DecidableEq, Repr

namespace Event

def all : List Event := [.rx, .join, .ack, .error]

def name : Event → String
  | .rx => "rx"
  | .join => "join"
  | .ack => "ack"
  | .error => "error"

def ofName? (s : String) : Option Event := all.find? (·.name == s)

open Json

/-- The event of a name that was read. -/
def ofName (s : String) : Read Event :=
  match ofName? s with
  | some e => .ok e
  | none => fail (.unknownVariant s (all.map name))

/-- The value of the member that names an event. -/
def readNothing : Document → Read Unit
  | .null => .ok ()
  | d => d.mismatch "unit"

/-- Reads an object of one member. What stands where its key should be is told apart from what
follows it. -/
def readObject (text : List Char) (members : List (Token String × Document)) (stop : Stop) :
    Read Event :=
  match members with
  | [] =>
    match stop with
    | .ended => malformed .endInValue
    | .badKey =>
      let behind := (text.dropWhile isJsonBlank).drop 1
      (Reading.ofText behind).document.mismatch "variant identifier"
    | _ => malformed .expectedValue
  | (key, d) :: more => do
    let event ← ofName (← Document.settle key)
    readNothing d
    if more.isEmpty then
      match stop with
      | .closed | .whole => .ok event
      | .ended => malformed .endInObject
      | _ => malformed .expectedValue
    else malformed .expectedValue

def ofText (text : String) : Read Event := do
  let cs := text.toList
  let reading := Reading.ofText cs
  let event ← match reading.document with
    | .text t => do ofName (← Document.settle t)
    | .object members stop => readObject cs members stop
    | _ => malformed (if cs.all isJsonBlank then .endInValue else .expectedValue)
  if reading.trailing then malformed .trailingCharacters else .ok event

def toJson (e : Event) : Json := .text e.name

end Event

end Uplink.Notification
