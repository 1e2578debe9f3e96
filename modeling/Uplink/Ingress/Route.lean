import Uplink.Notification.Wire
import Uplink.Url.Percent

namespace Uplink.Ingress

open Notification

inductive Route where
  | health
  | metrics
  | notify (event : Event)
  /-- The text stands for the number of an application. -/
  | reload (application : String)
  | reloadAll
  deriving DecidableEq, Repr

namespace Route

/-- The parts of a path between its slashes. -/
def segments : List Char → List (List Char)
  | [] => [[]]
  | '/' :: rest => [] :: segments rest
  | c :: rest =>
    match segments rest with
    | [] => [[c]]
    | first :: others => (c :: first) :: others

/-- The route of a target. What follows a question mark does not count; everything else is
compared as it is written. -/
def ofTarget (target : String) : Option Route :=
  let path := target.toList.takeWhile (· ≠ '?')
  match (segments path).map String.ofList with
  | ["", "health"] => some .health
  | ["", "metrics"] => some .metrics
  | ["", "api", "v1", "notifications", name] => (Event.ofName? name).map .notify
  | ["", "api", "v1", "applications", id, "integrations", "reload"] => some (.reload id)
  | ["", "api", "v1", "integrations", "reload"] => some .reloadAll
  | _ => none

def methods : Route → List String
  | .health | .metrics => ["GET", "HEAD"]
  | .notify _ | .reload _ | .reloadAll => ["POST"]

end Route

/-- Why a part of a path is not the number of an application. -/
inductive SegmentFault where
  | notText
  | notNumber (text : String)
  deriving DecidableEq, Repr

def SegmentFault.message : SegmentFault → String
  | .notText => "Invalid URL: Invalid UTF-8 in `id`"
  | .notNumber text => "Invalid URL: Cannot parse `" ++ text ++ "` to a `i64`"

/-- The number a part of a path stands for, once its percent signs are resolved. -/
def applicationOf (segment : String) : Except SegmentFault Int64 :=
  match Text.Utf8.decode? (Url.decode segment.toList) with
  | none => .error .notText
  | some text =>
    match Wire.parseInt64 text with
    | .ok n => .ok n
    | .error _ => .error (.notNumber text)

end Uplink.Ingress
