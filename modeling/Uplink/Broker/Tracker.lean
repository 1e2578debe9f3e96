import Uplink.Broker.Publish

namespace Uplink.Broker

structure Waiter where
  ticket : Nat
  qos : Qos
  /-- Nobody has been told yet how the request ended. -/
  live : Bool
  deriving DecidableEq, Repr

inductive Outcome where
  | done
  | failed (e : PublishError)
  /-- Another request took its packet identifier. -/
  | dropped
  deriving DecidableEq, Repr

/-- The end of the request of a number. -/
structure Completion where
  ticket : Nat
  outcome : Outcome
  deriving DecidableEq, Repr

/-- Which publication is complete. Requests are numbered as they are handed over and written in that
order. A lost connection fails whatever is waiting; what was not written by then stays in the queue,
because it will still be written, and the packets that were written may be sent again. -/
structure Tracker where
  issued : Nat
  queued : List Waiter
  /-- Packets that wait for their acknowledgement. -/
  inflight : List (Nat × Waiter)
  /-- Packets failed by a lost connection, which may be written again. -/
  abandoned : List Nat
  deriving DecidableEq, Repr

namespace Tracker

def empty : Tracker := ⟨0, [], [], []⟩

/-- Registers a request that was handed over. -/
def track (t : Tracker) (qos : Qos) : Tracker :=
  { t with issued := t.issued + 1, queued := t.queued ++ [⟨t.issued, qos, true⟩] }

/-- The completion of a waiter that is still open. -/
def complete (w : Waiter) (outcome : Outcome) : List Completion :=
  if w.live then [⟨w.ticket, outcome⟩] else []

/-- The requests that are in flight under an identifier. -/
def held (t : Tracker) (packet : Nat) : List Waiter :=
  (t.inflight.filter (·.1 == packet)).map (·.2)

/-- The packets in flight but for one identifier. -/
def without (t : Tracker) (packet : Nat) : List (Nat × Waiter) :=
  t.inflight.filter (·.1 != packet)

/-- A publication was written under a packet identifier. An abandoned identifier is one written
again; any other belongs to the oldest request in the queue. -/
def written (t : Tracker) (packet : Nat) : Tracker × List Completion :=
  if packet ≠ 0 ∧ packet ∈ t.abandoned then
    ({ t with abandoned := t.abandoned.filter (· != packet) }, [])
  else
    match t.queued with
    | [] => (t, [])
    | w :: rest =>
      let t := { t with queued := rest }
      if w.qos = .atMostOnce then (t, complete w .done)
      else if w.live then
        ({ t with inflight := t.without packet ++ [(packet, w)] },
          (t.held packet).flatMap (complete · .dropped))
      else (t, [])

/-- The broker acknowledged a packet, in the way of one quality of service. -/
def acknowledge (t : Tracker) (packet : Nat) (qos : Qos) : Tracker × List Completion :=
  let t := { t with abandoned := t.abandoned.filter (· != packet) }
  if (t.held packet).any (·.qos == qos) then
    ({ t with inflight := t.without packet }, (t.held packet).flatMap (complete · .done))
  else (t, [])

/-- Everything that waits fails. Requests in the queue keep their places. -/
def failAll (t : Tracker) (e : PublishError) : Tracker × List Completion :=
  let waiters := t.queued ++ t.inflight.map (·.2)
  ({ t with
      queued := t.queued.map fun w => { w with live := false }
      inflight := []
      abandoned := t.abandoned ++ (t.inflight.map (·.1)).filter (!t.abandoned.contains ·) },
    waiters.flatMap (complete · (.failed e)))

/-- The broker starts anew, so nothing will be written again. -/
def resetSession (t : Tracker) : Tracker := { t with abandoned := [] }

def pending (t : Tracker) : Nat := t.queued.countP (·.live) + t.inflight.length

inductive Step where
  /-- A request is handed over, or refused at once. -/
  | track (qos : Qos) (refusal : Option PublishError)
  | written (packet : Nat)
  | acknowledged (packet : Nat)
  | released (packet : Nat)
  | failAll (e : PublishError)
  | resetSession
  /-- The caller of a request stops listening, which the tracker does not notice. -/
  | forget (ticket : Nat)
  deriving DecidableEq, Repr

/-- The tracker after a step, and the requests that ended by it. -/
def step (t : Tracker) : Step → Tracker × List Completion
  | .track qos none => (t.track qos, [])
  | .track _ (some _) => (t, [])
  | .written packet => t.written packet
  | .acknowledged packet => t.acknowledge packet .atLeastOnce
  | .released packet => t.acknowledge packet .exactlyOnce
  | .failAll e => t.failAll e
  | .resetSession => (t.resetSession, [])
  | .forget _ => (t, [])

end Tracker

end Uplink.Broker
