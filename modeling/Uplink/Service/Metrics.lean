import Uplink.Dispatch.Step

namespace Uplink.Service

open Notification

/-- How often each combination of labels was counted, in ascending order. -/
abbrev Tally := List (List String × Nat)

def Tally.add (labels : List String) : Tally → Tally
  | [] => [(labels, 1)]
  | (other, n) :: rest =>
    if labels = other then (other, n + 1) :: rest
    else if labels < other then (labels, 1) :: (other, n) :: rest
    else (other, n) :: add labels rest

def Tally.total : Tally → Nat
  | [] => 0
  | (_, n) :: rest => n + Tally.total rest

/-- Counters by labels, and two gauges. -/
structure Metrics where
  deliveries : Tally
  latencies : Tally
  /-- By the kind that is stored. -/
  integrationErrors : Tally
  notifications : Tally
  loads : Tally
  lookups : Tally
  cachedApplications : Nat
  connected : Bool
  deriving DecidableEq, Repr

namespace Metrics

def zero : Metrics := ⟨[], [], [], [], [], [], 0, false⟩

def outcome (success : Bool) : String := if success then "success" else "failure"

def countRegistry (m : Metrics) : Registry.Count → Metrics
  | .hit => { m with lookups := m.lookups.add ["hit"] }
  | .miss => { m with lookups := m.lookups.add ["miss"] }
  | .loaded success => { m with loads := m.loads.add [outcome success] }
  | .integrationError kind => { m with integrationErrors := m.integrationErrors.add [kind] }
  | .cached n => { m with cachedApplications := n }

def count (m : Metrics) : Dispatch.Count → Metrics
  | .notification event => { m with notifications := m.notifications.add [event.name] }
  | .delivery backend event success =>
    { m with
      deliveries := m.deliveries.add [backend, event.name, outcome success]
      latencies := m.latencies.add [backend] }
  | .registry c => m.countRegistry c

def escape (c : Char) : List Char :=
  match c with
  | '\\' => ['\\', '\\']
  | '\n' => ['\\', 'n']
  | '"' => ['\\', '"']
  | c => [c]

def label (name value : String) : String :=
  name ++ "=\"" ++ String.ofList (value.toList.flatMap escape) ++ "\""

def sample (name : String) (labels : List String) (values : List String) (n : Nat) : String :=
  let shown := if labels.isEmpty then ""
    else "\x7b" ++ ",".intercalate (List.zipWith label labels values) ++ "\x7d"
  s!"{name}{shown} {n}"

/-- The lines above the values of a name. -/
def heading (name kind help : String) : List String :=
  [s!"# HELP {name} {help}", s!"# TYPE {name} {kind}"]

/-- A counter with its samples, if it has any. -/
def counter (name help : String) (labels : List String) (t : Tally) : List String :=
  if t.isEmpty then []
  else heading name "counter" help ++ t.map fun (values, n) => sample name labels values n

def gauge (name help : String) (n : Nat) : List String :=
  heading name "gauge" help ++ [sample name [] [] n]

/-- How many deliveries were measured. What was measured differs from run to run and is left out. -/
def latency (name help : String) (t : Tally) : List String :=
  if t.isEmpty then []
  else heading name "histogram" help
    ++ t.map fun (values, n) => sample (name ++ "_count") ["backend"] values n

def render (m : Metrics) : List String :=
  counter "lora_notify_backend_deliveries_total" "Total delivery attempts per backend"
    ["backend", "event", "outcome"] m.deliveries
  ++ latency "lora_notify_backend_delivery_latency_seconds" "Backend delivery latency in seconds"
    m.latencies
  ++ gauge "lora_notify_broker_connection_status"
    "MQTT broker connection status (1=connected, 0=disconnected)" m.connected.toNat
  ++ gauge "lora_notify_cached_applications" "Number of applications with cached backends"
    m.cachedApplications
  ++ counter "lora_notify_integration_errors_total" "Integration configuration errors" ["kind"]
    m.integrationErrors
  ++ counter "lora_notify_notifications_total" "Total notifications dispatched" ["event"]
    m.notifications
  ++ counter "lora_notify_registry_loads_total" "Integration loads from storage" ["outcome"]
    m.loads
  ++ counter "lora_notify_registry_lookups_total" "Backend registry lookups" ["result"] m.lookups

end Metrics

end Uplink.Service
