import Uplink.Backend.Error
import Uplink.Notification.Encoded

namespace Uplink.Backend

open Broker Notification Time

structure Publisher where
  answer : Answer
  disconnectAnswer : Answer
  connected : Bool
  /-- The messages handed over so far, oldest first, and what became of each. -/
  calls : List (Message × Answer)
  disconnects : Nat
  deriving DecidableEq, Repr

namespace Publisher

def ready : Publisher := ⟨.accepted, .accepted, true, [], 0⟩

def publish (p : Publisher) (m : Message) : Publisher :=
  { p with calls := p.calls ++ [(m, p.answer)] }

def disconnect (p : Publisher) : Publisher := { p with disconnects := p.disconnects + 1 }

/-- The messages the broker took, from a number of calls on. -/
def acceptedSince (p : Publisher) (count : Nat) : List Message :=
  ((p.calls.drop count).filter (·.2 == .accepted)).map (·.1)

end Publisher

/-- Delivery through the broker, of every notification under its topic. -/
structure BrokerBackend where
  qos : Qos
  publishTimeout : Duration
  disconnectTimeout : Duration
  closed : Bool
  deriving DecidableEq, Repr

namespace BrokerBackend

/-- A backend whose two timeouts are the same. -/
def new (qos : Qos) (timeout : Duration) : BrokerBackend := ⟨qos, timeout, timeout, false⟩

/-- A backend as configured: the level of its quality of service and its timeouts in
milliseconds. -/
def configured (level publishMillis disconnectMillis : Nat) :
    Except PublishError BrokerBackend := do
  let qos ← Qos.ofLevel level
  .ok ⟨qos, .ofMillis publishMillis, .ofMillis disconnectMillis, false⟩

def name : String := "mqtt"

def message (b : BrokerBackend) (n : Encoded) : Message := ⟨n.topic, b.qos, n.body⟩

/-- How a publication ends, given what becomes of the request. -/
def settle (b : BrokerBackend) (topic : String) : Answer → Delivery
  | .accepted => .ok ()
  | .refused e => .error (.publish topic e)
  | .never => .error (.timeout b.publishTimeout)

/-- Publishes a notification. A closed backend does not ask its publisher. -/
def send (b : BrokerBackend) (p : Publisher) (n : Encoded) : Publisher × Delivery :=
  if b.closed then (p, .error .closed)
  else (p.publish (b.message n), b.settle n.topic p.answer)

/-- How closing ends, given what becomes of the disconnect. -/
def settleClose (b : BrokerBackend) : Answer → Delivery
  | .accepted => .ok ()
  | .refused e => .error (.disconnect e)
  | .never => .error (.timeout b.disconnectTimeout)

/-- Closes the backend. Only the first call disconnects; a failing one closes all the same. -/
def close (b : BrokerBackend) (p : Publisher) : BrokerBackend × Publisher × Delivery :=
  if b.closed then (b, p, .ok ())
  else ({ b with closed := true }, p.disconnect, b.settleClose p.disconnectAnswer)

end BrokerBackend

end Uplink.Backend
