import Uplink.Backend.Broker
import Uplink.Dispatch.Failure

namespace Uplink.Dispatch

open Backend Broker Notification Registry Time

structure HookAttempt where
  hook : Hook
  outcome : Option Delivery

inductive Phase where
  | resolving
  /-- Deliveries are under way: the failures known before, the broker's outcome and those of the
  webhooks, as far as they are known, and when the deliveries began. -/
  | delivering (before : List BackendFailure) (broker : Option Delivery)
      (hooks : List HookAttempt) (since : Duration)

/-- A send in flight, by its number. -/
structure Send where
  number : Nat
  notification : Encoded
  phase : Phase

structure Stats where
  totalSent : Nat
  totalDelivered : Nat
  totalFailed : Nat
  brokerFailures : Nat
  integrationDeliveries : Nat
  integrationFailures : Nat
  storageFailures : Nat
  deriving DecidableEq, Repr

def Stats.zero : Stats := ⟨0, 0, 0, 0, 0, 0, 0⟩

end Uplink.Dispatch

namespace Uplink

open Backend Dispatch

/-- The dispatcher and the sends it has in flight. -/
structure Dispatcher where
  closed : Bool
  /-- The first close waits for the broker, by its number. -/
  closing : Option Nat
  broker : BrokerBackend
  registry : Registry
  sends : List Send
  stats : Stats

namespace Dispatcher

def start (broker : BrokerBackend) (registry : Registry) : Dispatcher :=
  ⟨false, none, broker, registry, [], .zero⟩

def send? (d : Dispatcher) (number : Nat) : Option Send := d.sends.find? (·.number == number)

/-- Puts a send in the place of the one of its number. -/
def setSend (d : Dispatcher) (s : Send) : Dispatcher :=
  { d with sends := d.sends.map fun t => if t.number = s.number then s else t }

def dropSend (d : Dispatcher) (number : Nat) : Dispatcher :=
  { d with sends := d.sends.filter (·.number != number) }

end Dispatcher

end Uplink
