import Uplink.Registry.Basic

namespace Uplink.Registry

open Backend Integration Store Time

inductive Count where
  | hit
  | miss
  | loaded (success : Bool)
  | integrationError (kind : String)
  | cached (applications : Nat)
  deriving DecidableEq, Repr

inductive Output where
  | counted (c : Count)
  | asked (call : Nat) (application : Int64)
  /-- The lookup of a call has found an entry, which fills its slot. -/
  | loaded (call : Nat) (entry : Entry)
  | returned (call : Nat) (result : Resolved)

/-- What can happen to the cache, in uninterrupted pieces of work. One call looks up what belongs to
an application, and those that come meanwhile share its slot; when the lookup fails, the next of
them tries itself. -/
inductive Step where
  | begin (call : Nat) (application : Int64)
  | answer (call : Nat) (found : Lookup)
  | wake (call : Nat)
  | invalidate (application : Int64)
  | invalidateAll
  | close
  | pass (time : Duration)

abbrev Outcome := Registry × List Output

def load (r : Registry) (c : Call) : Outcome :=
  ({ r with
      calls := r.calls.filter (·.number != c.number) ++ [{ c with loading := true }]
      stats := { r.stats with loads := r.stats.loads + 1 } },
    [.counted .miss, .asked c.number c.application])

/-- A call enters an empty slot: it fills it, or waits behind the one that does. -/
def enter (r : Registry) (call : Nat) (application : Int64) (number : Nat) : Outcome :=
  let s := r.slotAt number
  let c : Call := ⟨call, application, number, false⟩
  match s.holder with
  | none => load (r.setSlot number { s with holder := some call }) c
  | some _ =>
    ({ r.setSlot number { s with queue := s.queue ++ [call] } with calls := r.calls ++ [c] }, [])

def begin (r : Registry) (call : Nat) (application : Int64) : Outcome :=
  if r.closed then (r, [.returned call (.error .closed)])
  else
    let (r, number) := r.obtain application
    match (r.slotAt number).entry with
    | some e =>
      if isExpired r.ttl r.now e then
        let (r, number) := (r.retire application number).obtain application
        enter r call application number
      else
        ({ r with stats := { r.stats with hits := r.stats.hits + 1 } },
          [.counted .hit, .returned call (.ok e)])
    | none => enter r call application number

/-- A call returns the entry of its slot. When the registry was closed meanwhile, nobody else may
have seen the entry, so it is closed here. -/
def settle (r : Registry) (c : Call) (e : Entry) : Outcome :=
  let r := r.dropCall c.number
  if r.closed then
    ((r.retire c.application c.slot).release e, [.returned c.number (.error .closed)])
  else (r, [.counted (.cached r.cachedApplications), .returned c.number (.ok e)])

/-- Builds the integrations of a lookup, each for itself: the webhooks, numbered from `number` on,
and the failures. -/
def buildAll (number : Nat) : List Store.Integration → List Hook × List ConfigurationFailure
  | [] => ([], [])
  | row :: rest =>
    match Integration.build row with
    | .ok b =>
      let (hooks, failures) := buildAll (number + 1) rest
      (⟨number, b.endpoints⟩ :: hooks, failures)
    | .error error =>
      let (hooks, failures) := buildAll number rest
      (hooks, ⟨row.kind, error⟩ :: failures)

/-- The lookup of a call has failed: the next of those who wait may try, and the slot leaves the
cache. -/
def fail (r : Registry) (c : Call) (e : StorageError) : Outcome :=
  let s := r.slotAt c.slot
  let r := r.setSlot c.slot { s with holder := s.queue.head?, queue := s.queue.tail }
  let r := (r.retire c.application c.slot).dropCall c.number
  ({ r with stats := { r.stats with loadFailures := r.stats.loadFailures + 1 } },
    [.counted (.loaded false), .returned c.number (.error (.storage e))])

/-- The lookup of a call has found integrations: they are built, and fill the slot. -/
def fill (r : Registry) (c : Call) (rows : List Store.Integration) : Outcome :=
  let (hooks, failures) := buildAll r.hooks rows
  let e : Entry := ⟨r.entries, hooks, failures, r.now⟩
  let r := { r.setSlot c.slot { r.slotAt c.slot with entry := some e, holder := none } with
    entries := r.entries + 1
    hooks := r.hooks + hooks.length
    stats := { r.stats with integrationErrors := r.stats.integrationErrors + failures.length } }
  let (r, outputs) := settle r c e
  (r, .counted (.loaded true) :: failures.map (fun f => .counted (.integrationError f.kind))
    ++ .loaded c.number e :: outputs)

def answer (r : Registry) (call : Nat) (found : Lookup) : Outcome :=
  match r.call? call with
  | some c =>
    if c.loading then
      match found with
      | .ok rows => fill r c rows
      | .error e => fail r c e
    else (r, [])
  | none => (r, [])

/-- A waiting call goes on: its slot is filled, or it is its turn to fill it. -/
def wake (r : Registry) (call : Nat) : Outcome :=
  match r.call? call with
  | some c =>
    let s := r.slotAt c.slot
    if c.loading then (r, [])
    else
      match s.entry with
      | some e => settle r c e
      | none => if s.holder = some call then load r c else (r, [])
  | none => (r, [])

def invalidate (r : Registry) (application : Int64) : Outcome :=
  if (r.cache.lookup application).isSome then
    let r := { r with cache := r.cache.filter (·.1 != application) }
    (r, [.counted (.cached r.cachedApplications)])
  else (r, [])

def invalidateAll (r : Registry) : Outcome :=
  ({ r with cache := [] }, [.counted (.cached 0)])

def cachedEntries (r : Registry) : List Entry := r.cache.filterMap fun (_, n) => (r.slotAt n).entry

/-- Closes everything in the cache. A second time nothing happens. -/
def close (r : Registry) : Outcome :=
  if r.closed then (r, [])
  else
    ({ r.cachedEntries.foldl release r with closed := true, cache := [] }, [.counted (.cached 0)])

def pass (r : Registry) (time : Duration) : Registry := { r with now := r.now + time }

def step (r : Registry) : Step → Outcome
  | .begin call application => begin r call application
  | .answer call found => answer r call found
  | .wake call => wake r call
  | .invalidate application => invalidate r application
  | .invalidateAll => invalidateAll r
  | .close => close r
  | .pass time => (pass r time, [])

/-- Runs steps one after the other and collects what comes out. -/
def run (r : Registry) (steps : List Step) : Outcome :=
  steps.foldl (fun (r, outputs) s => let (r, more) := step r s; (r, outputs ++ more)) (r, [])

/-- The result of a call, if it is among the outputs. -/
def result? (call : Nat) (outputs : List Output) : Option Resolved :=
  outputs.findSome? fun
    | .returned n result => if n = call then some result else none
    | _ => none

/-- The next step of the calls in flight, when every lookup is answered as `lookup` says. -/
def next? (r : Registry) (lookup : Int64 → Lookup) : Option Step :=
  r.calls.findSome? fun c =>
    if c.loading then some (.answer c.number (lookup c.application))
    else
      let s := r.slotAt c.slot
      if s.entry.isSome ∨ s.holder = some c.number then some (.wake c.number) else none

/-- One call with nothing else in flight, whose lookup, if it needs one, is answered at once. -/
def resolve (r : Registry) (lookup : Int64 → Lookup) (call : Nat) (application : Int64) : Outcome :=
  let (r, outputs) := begin r call application
  if (result? call outputs).isSome then (r, outputs)
  else
    let (r, more) := answer r call (lookup application)
    (r, outputs ++ more)

end Uplink.Registry
