import Uplink.Broker.Address
import Uplink.Broker.Tracker

namespace Uplink.Broker

inductive LoopEvent where
  | connected (sessionPresent : Bool)
  | written (packet : Nat)
  | acknowledged (packet : Nat)
  | released (packet : Nat)
  | disconnectSent
  | lost (reason : String)
  | other
  deriving DecidableEq, Repr

/-- How far the first disconnect has come. -/
inductive Stopping where
  | no
  | asked
  | done
  deriving DecidableEq, Repr

/-- A client of the broker. Publications are handed to a loop that talks to the broker, and complete
as the loop reports. -/
structure Client where
  connected : Bool
  stopping : Stopping
  running : Bool
  tracker : Tracker
  /-- The requests that have ended, in the order they did. -/
  completions : List Completion
  deriving DecidableEq, Repr

namespace Client

def start : Client := ⟨false, .no, true, .empty, []⟩

/-- Applies a step of the tracker and keeps what it completes. -/
def note (c : Client) (r : Tracker × List Completion) : Client :=
  { c with tracker := r.1, completions := c.completions ++ r.2 }

/-- Hands over a publication. The client takes it when it is connected, no disconnect has begun
and there is room for it; the number of the request is returned. -/
def publish (c : Client) (qos : Qos) (room : Bool) : Client × Except PublishError Nat :=
  if c.stopping ≠ .no then (c, .error .disconnected)
  else if !c.connected then (c, .error .notConnected)
  else if !room then (c, .error .refused)
  else ({ c with tracker := c.tracker.track qos }, .ok c.tracker.issued)

/-- The loop ends, and with it whatever was waiting. -/
def endLoop (c : Client) : Client :=
  { c.note (c.tracker.failAll .disconnected) with running := false }

/-- The loop reports an event; it does so only while it runs. -/
def poll (c : Client) (e : LoopEvent) : Client :=
  if !c.running then c
  else
    match e with
    | .connected sessionPresent =>
      let tracker := if sessionPresent then c.tracker else c.tracker.resetSession
      { c with tracker, connected := true }
    | .written packet => c.note (c.tracker.written packet)
    | .acknowledged packet => c.note (c.tracker.acknowledge packet .atLeastOnce)
    | .released packet => c.note (c.tracker.acknowledge packet .exactlyOnce)
    | .disconnectSent => { c with connected := false }.endLoop
    | .lost reason =>
      let c := { c with connected := false }.note (c.tracker.failAll (.connectionLost reason))
      if c.stopping ≠ .no then c.endLoop else c
    | .other => c

/-- A disconnect begins. Only the first one has anything to do. -/
def beginDisconnect (c : Client) : Client :=
  if c.stopping = .no then { c with stopping := .asked } else c

/-- The first disconnect returns: the loop has stopped by itself or is stopped now. -/
def endDisconnect (c : Client) : Client :=
  if c.stopping = .asked then
    { c.note (c.tracker.failAll .disconnected) with
      connected := false, running := false, stopping := .done }
  else c

/-- How the request of a number ended, once it has. -/
def outcome? (c : Client) (ticket : Nat) : Option Outcome :=
  (c.completions.find? (·.ticket == ticket)).map (·.outcome)

def disconnect (c : Client) : Client := c.beginDisconnect.endDisconnect

end Client

end Uplink.Broker
