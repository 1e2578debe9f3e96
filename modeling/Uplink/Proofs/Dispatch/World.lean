import Uplink.Proofs.Dispatch.Aside

namespace Uplink.Dispatch

open Backend Broker Notification Registry Time

/-- What the far sides of the backends do with whatever they are given. -/
structure World where
  publish : Message → Answer
  post : Webhook.Request → Except Webhook.RequestError Nat
  disconnect : Answer

/-- What can happen to a dispatcher in a world. -/
inductive Act where
  | send (send : Nat) (notification : Encoded)
  /-- A call of its own begins at the registry. -/
  | resolve (call : Nat) (application : Int64)
  /-- The lookup of a call is answered. -/
  | load (call : Nat)
  | wake (call : Nat)
  /-- The publisher answers a send. -/
  | publish (send : Nat)
  /-- The webhook that stands in this place among those of a send answers it. -/
  | post (send place : Nat)
  | invalidate (application : Int64)
  | invalidateAll
  /-- The registry alone is closed. -/
  | shut
  | close (close : Nat)
  | disconnect
  | pass (time : Duration)

/-- The webhook of a send that stands in this place, and what it was asked. -/
def Send.asked? (s : Send) (place : Nat) : Option (Nat × Webhook.Request) :=
  match s.phase with
  | .delivering _ _ hooks _ =>
    hooks[place]?.bind fun a =>
      (a.hook.endpoints.request s.notification).map fun r => (a.hook.number, r)
  | .resolving => none

namespace World

variable (w : World)

/-- The step that an act is, when the lookups of calls are answered like this. An answer that there
is nobody to have is no step at all. -/
def step? (found : Nat → Option Lookup) (d : Dispatcher) : Act → Option Step
  | .send k n => some (.begin k n)
  | .resolve k a => some (.registry (.begin k a))
  | .load k => (found k).map fun x => .registry (.answer k x)
  | .wake k => some (.registry (.wake k))
  | .publish k =>
    (d.send? k).map fun s => .brokerAnswer k (w.publish (d.broker.message s.notification))
  | .post k place =>
    ((d.send? k).bind (·.asked? place)).map fun x => .hookAnswer k x.1 (w.post x.2)
  | .invalidate a => some (.registry (.invalidate a))
  | .invalidateAll => some (.registry .invalidateAll)
  | .shut => some (.registry .close)
  | .close c => some (.beginClose c)
  | .disconnect => some (.closeAnswer w.disconnect)
  | .pass t => some (.registry (.pass t))

def act (found : Nat → Option Lookup) (d : Dispatcher) (a : Act) : Outcome :=
  match w.step? found d a with
  | some s => step d s
  | none => (d, [])

/-- How a delivery ends that begins in this world, with open webhooks. -/
def outcome (b : BrokerBackend) (n : Encoded) : Target → Delivery
  | .broker => if b.closed then .error .closed else b.settle n.topic (w.publish (b.message n))
  | .hook h =>
    match h.endpoints.request n with
    | none => .ok ()
    | some r => WebhookBackend.settle r.url (w.post r)

end World

end Uplink.Dispatch
