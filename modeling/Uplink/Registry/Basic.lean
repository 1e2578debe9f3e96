import Uplink.Integration.Build
import Uplink.Time.Duration

namespace Uplink.Registry

open Backend Integration Store Time

/-- A webhook of an entry, by the number it was built under. -/
structure Hook where
  number : Nat
  endpoints : Webhook.Endpoints
  deriving DecidableEq, Repr

/-- What one lookup found for an application. Entries are numbered in the order of loading. -/
structure Entry where
  number : Nat
  hooks : List Hook
  failures : List ConfigurationFailure
  loadedAt : Duration

inductive ResolveError where
  | storage (e : StorageError)
  | closed
  deriving DecidableEq, Repr

def ResolveError.message : ResolveError → String
  | .storage e => "integration lookup failed: " ++ e.message
  | .closed => "backend registry is closed"

abbrev Resolved := Except ResolveError Entry

abbrev Lookup := Except StorageError (List Store.Integration)

/-- A place for one entry. One call at a time may fill it; the others wait their turn. -/
structure Slot where
  entry : Option Entry
  holder : Option Nat
  queue : List Nat

def Slot.fresh : Slot := ⟨none, none, []⟩

/-- A call in flight, by its number: whose application it resolves, into which slot, and whether
its own lookup is out. -/
structure Call where
  number : Nat
  application : Int64
  slot : Nat
  loading : Bool
  deriving DecidableEq, Repr

structure Stats where
  hits : Nat
  loads : Nat
  loadFailures : Nat
  integrationErrors : Nat
  deriving DecidableEq, Repr

/-- The time to live that is configured in seconds; zero stands for none. -/
def timeToLive (seconds : Nat) : Option Duration :=
  if seconds = 0 then none else some (.ofSeconds seconds)

/-- Whether an entry is no longer good. Without a time to live it is good until it is dropped. -/
def isExpired (ttl : Option Duration) (now : Duration) (e : Entry) : Bool :=
  match ttl with
  | none => false
  | some ttl => e.loadedAt + ttl ≤ now

end Uplink.Registry

namespace Uplink

open Registry Time

/-- The cache of backends. An application has at most one slot in it. A slot that left the cache
lives on for the calls that still hold it. -/
structure Registry where
  ttl : Option Duration
  now : Duration
  closed : Bool
  /-- The cache: the slot of each application that has one. -/
  cache : List (Int64 × Nat)
  /-- All slots there ever were, by number. -/
  slots : List Slot
  calls : List Call
  /-- How many entries and how many webhooks there were so far. -/
  entries : Nat
  hooks : Nat
  /-- The webhooks that were closed, in order; one that is closed twice stands here twice. -/
  released : List Nat
  stats : Stats

namespace Registry

def start (ttl : Option Duration) : Registry :=
  { ttl, now := ⟨0⟩, closed := false, cache := [], slots := [], calls := [], entries := 0
    hooks := 0, released := [], stats := ⟨0, 0, 0, 0⟩ }

def cachedApplications (r : Registry) : Nat := r.cache.length

def slotAt (r : Registry) (number : Nat) : Slot := r.slots.getD number .fresh

def setSlot (r : Registry) (number : Nat) (s : Slot) : Registry :=
  { r with slots := r.slots.set number s }

/-- The slot of an application, a new one where there is none. -/
def obtain (r : Registry) (application : Int64) : Registry × Nat :=
  match r.cache.lookup application with
  | some number => (r, number)
  | none =>
    let number := r.slots.length
    ({ r with cache := r.cache ++ [(application, number)], slots := r.slots ++ [.fresh] }, number)

/-- Takes a slot out of the cache, if it is still the one of its application. -/
def retire (r : Registry) (application : Int64) (number : Nat) : Registry :=
  { r with cache := r.cache.filter fun (a, n) => !(a == application && n == number) }

def release (r : Registry) (e : Entry) : Registry :=
  { r with released := r.released ++ e.hooks.map (·.number) }

def backend (r : Registry) (h : Hook) : Backend.WebhookBackend :=
  ⟨h.endpoints, r.released.contains h.number⟩

def call? (r : Registry) (number : Nat) : Option Call := r.calls.find? (·.number == number)

def dropCall (r : Registry) (number : Nat) : Registry :=
  { r with calls := r.calls.filter (·.number != number) }

end Registry

end Uplink
