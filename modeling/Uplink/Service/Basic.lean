import Uplink.Service.Metrics
import Uplink.Store.Source

namespace Uplink

open Backend Dispatch Service Store

/-- A dispatcher together with the world it works in. -/
structure Service where
  dispatcher : Dispatcher
  source : Source
  /-- Why lookups fail at the moment, if they do. -/
  outage : Option String
  publisher : Publisher
  far : Webhook.FarSide
  metrics : Metrics
  lookups : Nat
  /-- The requests made so far, oldest first. -/
  requests : List Webhook.Request
  /-- The number of the next send, call or close. -/
  next : Nat

namespace Service

/-- A new service in front of a source. -/
def start (broker : BrokerBackend) (ttl : Option Time.Duration) (source : Source)
    (far : Webhook.FarSide) : Service where
  dispatcher := Dispatcher.start broker (Registry.start ttl)
  source := source
  outage := none
  publisher := .ready
  far := far
  metrics := .zero
  lookups := 0
  requests := []
  next := 0

def registry (s : Service) : Registry := s.dispatcher.registry

/-- What a lookup finds at the moment. -/
def lookup (s : Service) (application : Int64) : Registry.Lookup :=
  match s.outage with
  | some reason => .error (.unavailable reason)
  | none => .ok (s.source.list application)

/-- The trace an output leaves. All requests of an exchange, redirected ones too, are noted at once
where it begins. -/
def note (s : Service) : Output → Service
  | .counted c => { s with metrics := s.metrics.count c }
  | .asked _ _ => { s with lookups := s.lookups + 1 }
  | .published _ m => { s with publisher := s.publisher.publish m }
  | .requested _ _ r => { s with requests := s.requests ++ (Webhook.run s.far r).requests }
  | .disconnected => { s with publisher := s.publisher.disconnect }
  | .loaded _ _ | .resolved _ _ | .attempted _ _ _ | .delivered _ _ _ | .sent _ _ | .closed _ _ => s

abbrev Outcome := Service × List Output

def perform (s : Service) (step : Dispatch.Step) : Outcome :=
  let (dispatcher, outputs) := Dispatch.step s.dispatcher step
  (outputs.foldl note { s with dispatcher }, outputs)

/-- What the rest of the world does in answer to an output. -/
def reaction (s : Service) : Output → Option Dispatch.Step
  | .published send _ => some (.brokerAnswer send s.publisher.answer)
  | .requested send hook r => some (.hookAnswer send hook (Webhook.run s.far r).result)
  | .disconnected => some (.closeAnswer s.publisher.disconnectAnswer)
  | _ => none

/-- How long an output keeps the dispatcher waiting. -/
def delay (s : Service) : Output → Time.Duration
  | .published _ _ =>
    if s.publisher.answer = .never then s.dispatcher.broker.publishTimeout else ⟨0⟩
  | .disconnected =>
    if s.publisher.disconnectAnswer = .never then s.dispatcher.broker.disconnectTimeout else ⟨0⟩
  | _ => ⟨0⟩

/-- The longest of the waits, which all begin together. -/
def longest (s : Service) (outputs : List Output) : Time.Duration :=
  ⟨outputs.foldl (fun most o => max most (s.delay o).nanos) 0⟩

/-- Adds what comes out of one more piece of work. -/
def andThen (o : Outcome) (work : Service → Outcome) : Outcome :=
  let (s, more) := work o.1
  (s, o.2 ++ more)

/-- Answers whatever waits for the rest of the world. -/
def attend (s : Service) (outputs : List Output) : Outcome :=
  let waited := s.perform (.registry (.pass (s.longest outputs)))
  (outputs.filterMap s.reaction).foldl (fun o step => andThen o (·.perform step)) waited

/-- A call in flight goes on until it returns. -/
def finishCall (s : Service) (call : Nat) : Outcome :=
  andThen (s.perform (.registry (.wake call))) fun s =>
    match s.registry.call? call with
    | some c => s.perform (.registry (.answer call (s.lookup c.application)))
    | none => (s, [])

/-- Lets everything that is in flight come to its end, the calls in the order in which they
began. Gives what came out before, too. -/
def settle (o : Outcome) : Outcome :=
  let calls := o.1.registry.calls.map (·.number)
  let o := calls.foldl (fun o call => andThen o (·.finishCall call)) o
  andThen o (·.attend o.2)

def beginSend (s : Service) (n : Notification.Encoded) : Nat × Outcome :=
  (s.next, { s with next := s.next + 1 }.perform (.begin s.next n))

def sent? (send : Nat) (outputs : List Output) : Option Sent :=
  outputs.findSome? fun
    | .sent n result => if n = send then some result else none
    | _ => none

/-- A send that was never answered counts as refused. -/
def sentOf (send : Nat) (outputs : List Output) : Sent := (sent? send outputs).getD (.error .closed)

def send (s : Service) (n : Notification.Encoded) : Service × Sent :=
  let (send, begun) := s.beginSend n
  let (s, outputs) := settle begun
  (s, sentOf send outputs)

/-- Begins several pieces of work before any of them goes on. -/
def beginAll {α : Type} (begin : Service → α → Nat × Outcome) (s : Service) (items : List α) :
    List Nat × Outcome :=
  items.foldl (fun (numbers, o) item =>
    let (number, more) := begin o.1 item
    (numbers ++ [number], more.1, o.2 ++ more.2)) ([], s, [])

def sendAll (s : Service) (ns : List Notification.Encoded) : Service × List Sent :=
  let (sends, begun) := beginAll beginSend s ns
  let (s, outputs) := settle begun
  (s, sends.map (sentOf · outputs))

/-- A send during whose lookup something else happens. Without a lookup it ends before that. -/
def sendAround {α : Type} (s : Service) (n : Notification.Encoded)
    (meanwhile : Service → Service × α) : Service × α × Sent :=
  let (send, begun) := s.beginSend n
  if (begun.1.registry.call? send).isSome then
    let (s, value) := meanwhile begun.1
    let (s, outputs) := settle (s, begun.2)
    (s, value, sentOf send outputs)
  else
    let (s, outputs) := settle begun
    let (s, value) := meanwhile s
    (s, value, sentOf send outputs)

def beginResolve (s : Service) (application : Int64) : Nat × Outcome :=
  (s.next, { s with next := s.next + 1 }.perform (.registry (.begin s.next application)))

def resolved? (call : Nat) (outputs : List Output) : Option (Registry.Resolved) :=
  outputs.findSome? fun
    | .resolved n result => if n = call then some result else none
    | _ => none

def resolvedOf (call : Nat) (outputs : List Output) : Registry.Resolved :=
  (resolved? call outputs).getD (.error .closed)

def resolve (s : Service) (application : Int64) : Service × Registry.Resolved :=
  let (call, begun) := s.beginResolve application
  let (s, outputs) := settle begun
  (s, resolvedOf call outputs)

def resolveAll (s : Service) (applications : List Int64) :
    Service × List (Registry.Resolved) :=
  let (calls, begun) := beginAll beginResolve s applications
  let (s, outputs) := settle begun
  (s, calls.map (resolvedOf · outputs))

/-- Drops the entry of an application, and says whether there was one. -/
def invalidate (s : Service) (application : Int64) : Service × Bool :=
  ((s.perform (.registry (.invalidate application))).1,
    (s.registry.cache.lookup application).isSome)

def invalidateAll (s : Service) : Service := (s.perform (.registry .invalidateAll)).1

def closeRegistry (s : Service) : Service := (s.perform (.registry .close)).1

def deliverTo (s : Service) (h : Registry.Hook) (n : Notification.Encoded) : Service × Delivery :=
  let (requests, result) := (s.registry.backend h).send s.far n
  ({ s with requests := s.requests ++ requests }, result)

def closeHook (s : Service) (h : Registry.Hook) : Service :=
  { s with dispatcher :=
    { s.dispatcher with registry :=
      { s.registry with released := s.registry.released ++ [h.number] } } }

def pass (s : Service) (time : Time.Duration) : Service :=
  (s.perform (.registry (.pass time))).1

def closed? (close : Nat) (outputs : List Output) : Option Sent :=
  outputs.findSome? fun
    | .closed n result => if n = close then some result else none
    | _ => none

/-- Closes the dispatcher. What is in flight stays so. -/
def close (s : Service) : Service × Sent :=
  let begun := { s with next := s.next + 1 }.perform (.beginClose s.next)
  let (after, outputs) := andThen begun (·.attend begun.2)
  (after, (closed? s.next outputs).getD (.ok ()))

/-- The metrics, with the gauges brought up to date. -/
def sampled (s : Service) : Service :=
  { s with metrics := { s.metrics with
      connected := s.publisher.connected
      cachedApplications := s.registry.cachedApplications } }

end Service

end Uplink
