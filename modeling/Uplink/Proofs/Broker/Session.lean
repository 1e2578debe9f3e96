import Uplink.Proofs.Broker.Turns

namespace Uplink.Broker

/-- A request as the loop knows it. -/
structure Request where
  number : Nat
  qos : Qos
  /-- The connection was lost while the request waited to be written. -/
  failed : Bool
  /-- Its packet has been written again. -/
  repeated : Bool
  deriving DecidableEq, Repr

namespace Request

/-- Nobody has told the tracker to expect the packet of such a request again: it failed before it
was written, or its packet has been written again already. -/
def forgotten (r : Request) : Bool := r.failed || r.repeated

def waiter (r : Request) : Waiter := ⟨r.number, r.qos, !r.failed⟩

end Request

structure Loop where
  connected : Bool
  issued : Nat
  unwritten : List Request
  unacknowledged : List (Nat × Request)
  /-- The packets that have to be written again first. -/
  due : List Nat
  deriving DecidableEq, Repr

inductive Move where
  /-- A request is handed over, or refused at once. -/
  | request (qos : Qos) (refusal : Option PublishError)
  /-- The next request is written; the identifier 0 stands for none. -/
  | write (packet : Nat)
  /-- A packet of an earlier connection is written once more. -/
  | again (packet : Nat)
  | acknowledge (packet : Nat)
  | lose (e : PublishError)
  /-- A connection to a broker that knows the session. -/
  | resume
  /-- A connection to a broker that does not know it. -/
  | restart
  deriving DecidableEq, Repr

namespace Loop

def packets (l : Loop) : List Nat := l.unacknowledged.map (·.1)

/-- Whether the loop can make a move. Without a connection it neither writes nor hears of an
acknowledgement, though it may fail to connect once more. -/
def allows (l : Loop) : Move → Bool
  | .request _ _ | .lose _ => true
  | .write p =>
    l.connected && l.due.isEmpty && match l.unwritten with
      | [] => false
      | r :: _ => if r.qos = .atMostOnce then p == 0 else p != 0 && !l.packets.contains p
  | .again p => l.connected && l.due.contains p
  | .acknowledge p => l.connected && l.packets.contains p
  | .resume | .restart => !l.connected

def next (l : Loop) : Move → Loop
  | .request q none =>
    { l with issued := l.issued + 1, unwritten := l.unwritten ++ [⟨l.issued, q, false, false⟩] }
  | .request _ (some _) => l
  | .write p =>
    match l.unwritten with
    | [] => l
    | r :: rest =>
      if r.qos = .atMostOnce then { l with unwritten := rest }
      else { l with unwritten := rest, unacknowledged := l.unacknowledged ++ [(p, r)] }
  | .again p =>
    { l with
      unacknowledged := l.unacknowledged.map fun (p', r) =>
        (p', { r with repeated := r.repeated || p' == p })
      due := l.due.filter (· != p) }
  | .acknowledge p =>
    { l with
      unacknowledged := l.unacknowledged.filter (·.1 != p)
      due := l.due.filter (· != p) }
  | .lose _ =>
    { l with
      connected := false
      unwritten := l.unwritten.map ({ · with failed := true })
      due := l.packets }
  | .resume => { l with connected := true }
  | .restart => { l with connected := true, unacknowledged := [], due := [] }

/-- What the tracker hears of a move. A packet is acknowledged in the way of its request. -/
def report (l : Loop) : Move → Option Tracker.Step
  | .request q refusal => some (.track q refusal)
  | .write p | .again p => some (.written p)
  | .acknowledge p => (l.unacknowledged.lookup p).bind fun r => Tracker.acknowledgement r.qos p
  | .lose e => some (.failAll e)
  | .resume => none
  | .restart => some .resetSession

/-- The packets that the tracker expects to hear of again, and for whom. -/
def expected (l : Loop) : List (Nat × Waiter) :=
  (l.unacknowledged.filter (!·.2.forgotten)).map fun (p, r) => (p, r.waiter)

/-- The move that should end a request well: its write, where nothing acknowledges it, and the
acknowledgement of its packet otherwise. -/
def Finishes (l : Loop) (k : Nat) : Move → Prop
  | .write _ => ∃ r ∈ l.unwritten.head?, r.number = k ∧ r.qos = .atMostOnce
  | .acknowledge p => ∃ x ∈ l.unacknowledged, x.1 = p ∧ x.2.number = k
  | _ => False

instance (l : Loop) (k : Nat) (m : Move) : Decidable (l.Finishes k m) :=
  match m with
  | .write _ =>
    inferInstanceAs (Decidable (∃ r ∈ l.unwritten.head?, r.number = k ∧ r.qos = .atMostOnce))
  | .acknowledge p =>
    inferInstanceAs (Decidable (∃ x ∈ l.unacknowledged, x.1 = p ∧ x.2.number = k))
  | .request _ _ | .again _ | .lose _ | .resume | .restart => inferInstanceAs (Decidable False)

/-- A forgotten packet is written again while a request waits to be written. -/
def Slips (l : Loop) : Move → Prop
  | .again p => l.unwritten ≠ [] ∧ ∃ x ∈ l.unacknowledged, x.1 = p ∧ x.2.forgotten = true
  | _ => False

instance (l : Loop) (m : Move) : Decidable (l.Slips m) :=
  match m with
  | .again p =>
    inferInstanceAs
      (Decidable (l.unwritten ≠ [] ∧ ∃ x ∈ l.unacknowledged, x.1 = p ∧ x.2.forgotten = true))
  | .request _ _ | .write _ | .acknowledge _ | .lose _ | .resume | .restart =>
    inferInstanceAs (Decidable False)

end Loop

structure Session where
  loop : Loop
  tracker : Tracker
  deriving DecidableEq, Repr

namespace Session

def start (connected : Bool) : Session := ⟨⟨connected, 0, [], [], []⟩, .empty⟩

/-- The session after a move, and the requests that ended by it. -/
def step (s : Session) (m : Move) : Session × List Completion :=
  match s.loop.report m with
  | none => (⟨s.loop.next m, s.tracker⟩, [])
  | some heard => (⟨s.loop.next m, (s.tracker.step heard).1⟩, (s.tracker.step heard).2)

theorem step_of_report {s : Session} {m : Move} {heard : Tracker.Step}
    (h : s.loop.report m = some heard) :
    s.step m = (⟨s.loop.next m, (s.tracker.step heard).1⟩, (s.tracker.step heard).2) := by
  rw [step, h]

/-- Something holds of every one of some moves, in the state in which it is made. -/
def Throughout (P : Session → Move → Prop) : Session → List Move → Prop
  | _, [] => True
  | s, m :: rest => P s m ∧ Throughout P (s.step m).1 rest

instance decidableThroughout (P : Session → Move → Prop) [∀ s m, Decidable (P s m)] :
    (s : Session) → (moves : List Move) → Decidable (Throughout P s moves)
  | _, [] => inferInstanceAs (Decidable True)
  | s, m :: rest =>
    have := decidableThroughout P (s.step m).1 rest
    inferInstanceAs (Decidable (P s m ∧ Throughout P (s.step m).1 rest))

end Session

end Uplink.Broker
