import Uplink.Dispatch.Basic

namespace Uplink.Dispatch

open Backend Broker Notification Registry Time

inductive Count where
  | notification (event : Event)
  | delivery (backend : String) (event : Event) (success : Bool)
  | registry (c : Registry.Count)
  deriving DecidableEq, Repr

inductive Target where
  | broker
  | hook (h : Hook)
  deriving DecidableEq, Repr

def Target.name : Target → String
  | .broker => BrokerBackend.name
  | .hook _ => WebhookBackend.name

inductive Output where
  | counted (c : Count)
  | asked (call : Nat) (application : Int64)
  /-- The lookup of a call has found an entry. -/
  | loaded (call : Nat) (entry : Entry)
  /-- A call returns, be it a send's or one of its own. -/
  | resolved (call : Nat) (result : Resolved)
  /-- A backend is handed the notification of a send. -/
  | attempted (send : Nat) (target : Target) (notification : Encoded)
  /-- A message is handed to the publisher. -/
  | published (send : Nat) (message : Message)
  /-- The request that begins an exchange with a webhook. Those that redirects make of it, in
  `Webhook.exchange`, are the client's own. -/
  | requested (send : Nat) (hook : Nat) (request : Webhook.Request)
  | delivered (send : Nat) (target : Target) (outcome : Delivery)
  | disconnected
  | sent (send : Nat) (result : Sent)
  | closed (close : Nat) (result : Sent)

/-- What can happen to the dispatcher, in uninterrupted pieces of work. A send begins all its
deliveries in the step in which its application is resolved. -/
inductive Step where
  | begin (send : Nat) (notification : Encoded)
  /-- Something happens to the registry. -/
  | registry (s : Registry.Step)
  | brokerAnswer (send : Nat) (a : Answer)
  | hookAnswer (send : Nat) (hook : Nat) (result : Except Webhook.RequestError Nat)
  | beginClose (close : Nat)
  | closeAnswer (a : Answer)

abbrev Outcome := Dispatcher × List Output

/-- The end of a delivery, which is counted. -/
def ended (send : Nat) (t : Target) (event : Event) (d : Delivery) : List Output :=
  [.delivered send t d, .counted (.delivery t.name event d.toBool)]

def failed (d : Delivery) : Bool := !d.toBool

/-- The end of a send whose deliveries have all ended. -/
def finish (d : Dispatcher) (s : Send) (before : List BackendFailure) (broker : Delivery)
    (hooks : List Delivery) : Outcome :=
  let failures := before ++ (ofDelivery BrokerBackend.name broker).toList
    ++ hooks.filterMap (ofDelivery WebhookBackend.name)
  let stats := { d.stats with
    integrationDeliveries := d.stats.integrationDeliveries + hooks.length
    integrationFailures := d.stats.integrationFailures + hooks.countP failed
    brokerFailures := d.stats.brokerFailures + (if broker.toBool then 0 else 1) }
  let d := d.dropSend s.number
  if failures.isEmpty then
    ({ d with stats := { stats with totalDelivered := stats.totalDelivered + 1 } },
      [.sent s.number (.ok ())])
  else
    ({ d with stats := { stats with totalFailed := stats.totalFailed + 1 } },
      [.sent s.number (.error (.delivery failures))])

def outcomes? (hooks : List HookAttempt) : Option (List Delivery) := hooks.mapM (·.outcome)

/-- Keeps the state of a send, and ends it when nothing is left to wait for. -/
def proceed (d : Dispatcher) (s : Send) : Outcome :=
  match s.phase with
  | .delivering before (some broker) hooks _ =>
    match outcomes? hooks with
    | some known => finish d s before broker known
    | none => (d.setSend s, [])
  | _ => (d.setSend s, [])

def beginHook (d : Dispatcher) (send : Nat) (n : Encoded) (h : Hook) :
    HookAttempt × List Output :=
  let start := .attempted send (.hook h) n
  match (d.registry.backend h).request n with
  | .error e => (⟨h, some (.error e)⟩, start :: ended send (.hook h) n.event (.error e))
  | .ok none => (⟨h, some (.ok ())⟩, start :: ended send (.hook h) n.event (.ok ()))
  | .ok (some r) => (⟨h, none⟩, [start, .requested send h.number r])

def beginBroker (d : Dispatcher) (send : Nat) (n : Encoded) : Option Delivery × List Output :=
  let start := .attempted send .broker n
  if d.broker.closed then
    (some (.error .closed), start :: ended send .broker n.event (.error .closed))
  else (none, [start, .published send (d.broker.message n)])

/-- Begins all deliveries of a send. -/
def deliver (d : Dispatcher) (s : Send) (before : List BackendFailure) (hooks : List Hook) :
    Outcome :=
  let (broker, brokerOutputs) := beginBroker d s.number s.notification
  let attempts := hooks.map (beginHook d s.number s.notification)
  let phase := Phase.delivering before broker (attempts.map (·.1)) d.registry.now
  let (d, outputs) := proceed d { s with phase }
  (d, brokerOutputs ++ attempts.flatMap (·.2) ++ outputs)

/-- A send goes on when its application is resolved. -/
def onResolved (d : Dispatcher) (s : Send) : Resolved → Outcome
  | .ok e => deliver d s (e.failures.map ofConfiguration) e.hooks
  | .error (.storage e) =>
    let stats := { d.stats with storageFailures := d.stats.storageFailures + 1 }
    deliver { d with stats } s [ofStorage e] []
  | .error .closed => (d.dropSend s.number, [.sent s.number (.error .closed)])

/-- What an output of the registry leads to. -/
def onOutput (d : Dispatcher) : Registry.Output → Outcome
  | .counted c => (d, [.counted (.registry c)])
  | .asked call application => (d, [.asked call application])
  | .loaded call e => (d, [.loaded call e])
  | .returned call result =>
    match d.send? call with
    | some s =>
      let (d, outputs) := onResolved d s result
      (d, .resolved call result :: outputs)
    | none => (d, [.resolved call result])

/-- Follows up everything that came out of the registry. -/
def follow (d : Dispatcher) (outputs : List Registry.Output) : Outcome :=
  outputs.foldl (fun (d, done) o => let (d, more) := onOutput d o; (d, done ++ more)) (d, [])

/-- A step of the registry and what follows from it. -/
def registryStep (d : Dispatcher) (s : Registry.Step) : Outcome :=
  let (registry, outputs) := Registry.step d.registry s
  follow { d with registry } outputs

def begin (d : Dispatcher) (send : Nat) (n : Encoded) : Outcome :=
  if d.closed then (d, [.sent send (.error .closed)])
  else
    let stats := { d.stats with totalSent := d.stats.totalSent + 1 }
    let d := { d with stats, sends := d.sends ++ [⟨send, n, .resolving⟩] }
    let (d, outputs) := registryStep d (.begin send n.applicationId)
    (d, .counted (.notification n.event) :: outputs)

def brokerAnswer (d : Dispatcher) (send : Nat) (a : Answer) : Outcome :=
  match d.send? send with
  | some s =>
    match s.phase with
    | .delivering before none hooks since =>
      let result := d.broker.settle s.notification.topic a
      let (d, outputs) := proceed d
        { s with phase := .delivering before (some result) hooks since }
      (d, ended send .broker s.notification.event result ++ outputs)
    | _ => (d, [])
  | none => (d, [])

/-- Records the outcome of a webhook that is still waited for. -/
def record (hook : Nat) (result : Delivery) (a : HookAttempt) : HookAttempt :=
  if a.hook.number = hook ∧ a.outcome.isNone then { a with outcome := some result } else a

def hookAnswer (d : Dispatcher) (send hook : Nat) (result : Except Webhook.RequestError Nat) :
    Outcome :=
  match d.send? send with
  | some s =>
    match s.phase with
    | .delivering before broker hooks since =>
      match hooks.find? fun a => a.hook.number == hook && a.outcome.isNone with
      | some a =>
        match a.hook.endpoints.url? s.notification.event with
        | some url =>
          let delivery := WebhookBackend.settle url result
          let hooks := hooks.map (record hook delivery)
          let (d, outputs) := proceed d { s with phase := .delivering before broker hooks since }
          (d, ended send (.hook a.hook) s.notification.event delivery ++ outputs)
        | none => (d, [])
      | none => (d, [])
    | .resolving => (d, [])
  | none => (d, [])

/-- A close begins. The first one closes the registry and asks the publisher to disconnect; any
other one is over at once. -/
def beginClose (d : Dispatcher) (close : Nat) : Outcome :=
  if d.closed then (d, [.closed close (.ok ())])
  else
    let (d, outputs) := registryStep { d with closed := true } .close
    if d.broker.closed then (d, outputs ++ [.closed close (.ok ())])
    else
      ({ d with broker := { d.broker with closed := true }, closing := some close },
        outputs ++ [.disconnected])

/-- The publisher answers the disconnect of the first close. -/
def closeAnswer (d : Dispatcher) (a : Answer) : Outcome :=
  match d.closing with
  | some close =>
    let result : Sent := match ofDelivery BrokerBackend.name (d.broker.settleClose a) with
      | none => .ok ()
      | some f => .error (.delivery [f])
    ({ d with closing := none }, [.closed close result])
  | none => (d, [])

def step (d : Dispatcher) : Step → Outcome
  | .begin send n => begin d send n
  | .registry s => registryStep d s
  | .brokerAnswer send a => brokerAnswer d send a
  | .hookAnswer send hook result => hookAnswer d send hook result
  | .beginClose close => beginClose d close
  | .closeAnswer a => closeAnswer d a

/-- Runs steps one after the other and collects what comes out. -/
def run (d : Dispatcher) (steps : List Step) : Outcome :=
  steps.foldl (fun (d, outputs) s => let (d, more) := step d s; (d, outputs ++ more)) (d, [])

end Uplink.Dispatch
