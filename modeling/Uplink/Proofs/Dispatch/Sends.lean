import Uplink.Dispatch.Step

namespace Uplink.Dispatch

open Backend Broker Notification Registry Time

variable {d : Dispatcher} {j k : Nat} {n : Encoded} {o o' : List Output} {s t : Send}

/-- The deliveries of a send that have begun, in order, each with what is delivered. -/
def attempts (send : Nat) (o : List Output) : List (Target × Encoded) :=
  o.filterMap fun
    | .attempted s t n => if s = send then some (t, n) else none
    | _ => none

/-- The deliveries of a send that have ended, in order, each with its outcome. -/
def endings (send : Nat) (o : List Output) : List (Target × Delivery) :=
  o.filterMap fun
    | .delivered s t x => if s = send then some (t, x) else none
    | _ => none

/-- Every end of a send; that there is only one is to be proved. -/
def results (send : Nat) (o : List Output) : List Sent :=
  o.filterMap fun
    | .sent s result => if s = send then some result else none
    | _ => none

/-- How the dispatcher passes on what the registry says. -/
def pass : Registry.Output → Output
  | .counted c => .counted (.registry c)
  | .asked call a => .asked call a
  | .loaded call e => .loaded call e
  | .returned call result => .resolved call result

/-- What the registry has said, among the outputs. -/
def heard (o : List Output) : List Registry.Output :=
  o.filterMap fun
    | .counted (.registry c) => some (.counted c)
    | .asked call a => some (.asked call a)
    | .loaded call e => some (.loaded call e)
    | .resolved call result => some (.returned call result)
    | _ => none

@[simp] theorem attempts_append (k : Nat) (o o' : List Output) :
    attempts k (o ++ o') = attempts k o ++ attempts k o' :=
  List.filterMap_append

@[simp] theorem endings_append (k : Nat) (o o' : List Output) :
    endings k (o ++ o') = endings k o ++ endings k o' :=
  List.filterMap_append

@[simp] theorem results_append (k : Nat) (o o' : List Output) :
    results k (o ++ o') = results k o ++ results k o' :=
  List.filterMap_append

@[simp] theorem heard_append (o o' : List Output) : heard (o ++ o') = heard o ++ heard o' :=
  List.filterMap_append

theorem mem_results {result : Sent} : result ∈ results k o ↔ .sent k result ∈ o := by
  simp only [results, List.mem_filterMap]
  constructor
  · rintro ⟨x, hx, hr⟩
    cases x with
    | sent i r =>
      by_cases hi : i = k
      · simp only [hi, ↓reduceIte, Option.some.injEq] at hr
        rw [← hi, ← hr]
        exact hx
      · simp [hi] at hr
    | _ => cases hr
  · exact fun h => ⟨_, h, by simp⟩

theorem mem_heard {out : Registry.Output} : out ∈ heard o ↔ pass out ∈ o := by
  simp only [heard, List.mem_filterMap]
  constructor
  · rintro ⟨x, hx, ho⟩
    cases x with
    | counted c =>
      cases c with
      | registry c =>
        cases ho
        exact hx
      | _ => cases ho
    | asked j a | loaded j e | resolved j result =>
      cases ho
      exact hx
    | _ => cases ho
  · intro h
    refine ⟨pass out, h, ?_⟩
    cases out <;> rfl

theorem mem_heard_resolved {result : Resolved} :
    .returned k result ∈ heard o ↔ .resolved k result ∈ o :=
  mem_heard

theorem mem_heard_loaded {e : Entry} : .loaded k e ∈ heard o ↔ .loaded k e ∈ o :=
  mem_heard

theorem mem_heard_asked {a : Int64} : .asked k a ∈ heard o ↔ .asked k a ∈ o :=
  mem_heard

/-- Nothing is said about a send. -/
structure Quiet (send : Nat) (o : List Output) : Prop where
  attempts : attempts send o = []
  endings : endings send o = []
  results : results send o = []

theorem Quiet.nil : Quiet k [] := ⟨rfl, rfl, rfl⟩

theorem Quiet.append (h : Quiet k o) (h' : Quiet k o') : Quiet k (o ++ o') where
  attempts := by rw [attempts_append, h.attempts, h'.attempts]; rfl
  endings := by rw [endings_append, h.endings, h'.endings]; rfl
  results := by rw [results_append, h.results, h'.results]; rfl

theorem send?_number (h : d.send? k = some s) : s.number = k := by
  simpa using List.find?_some h

theorem send?_setSend (d : Dispatcher) (s : Send) (k : Nat) :
    (d.setSend s).send? k = if k = s.number then (d.send? k).map (fun _ => s) else d.send? k := by
  have hsame : ((·.number == k) ∘ fun t => if t.number = s.number then s else t) =
      fun t : Send => t.number == k := by
    funext t
    by_cases ht : t.number = s.number <;> simp [ht]
  simp only [Dispatcher.send?, Dispatcher.setSend, List.find?_map, hsame]
  cases hf : d.sends.find? (·.number == k) with
  | none => split <;> rfl
  | some t =>
    have hk : t.number = k := send?_number hf
    by_cases hs : k = s.number <;> simp [hk, hs]

theorem send?_dropSend (d : Dispatcher) (j k : Nat) :
    (d.dropSend j).send? k = if k = j then none else d.send? k := by
  simp only [Dispatcher.send?, Dispatcher.dropSend, List.find?_filter]
  split
  · rename_i hk
    rw [List.find?_eq_none]
    intro t _
    simp [hk]
  · rename_i hk
    congr 1
    funext t
    by_cases ht : t.number = k <;> simp [ht, hk]

/-- How a send ends, by its failures. -/
def report : List BackendFailure → Sent
  | [] => .ok ()
  | failures => .error (.delivery failures)

/-- How a send ends that has come so far, if it does. -/
def concluded? : Phase → Option Sent
  | .delivering before (some broker) hooks _ =>
    (outcomes? hooks).map fun known =>
      report (before ++ (ofDelivery BrokerBackend.name broker).toList
        ++ known.filterMap (ofDelivery WebhookBackend.name))
  | _ => none

theorem proceed_of_some {result : Sent} (h : concluded? s.phase = some result) :
    (proceed d s).1.sends = (d.dropSend s.number).sends ∧ (proceed d s).1.registry = d.registry ∧
      (proceed d s).1.broker = d.broker ∧ (proceed d s).2 = [.sent s.number result] := by
  obtain ⟨number, n, phase⟩ := s
  unfold concluded? at h
  dsimp only at h
  split at h
  · rename_i before broker hooks since
    rw [Option.map_eq_some_iff] at h
    obtain ⟨known, hk, rfl⟩ := h
    simp only [proceed, hk, finish]
    cases before ++ (ofDelivery BrokerBackend.name broker).toList
        ++ known.filterMap (ofDelivery WebhookBackend.name) with
    | nil => exact ⟨rfl, rfl, rfl, rfl⟩
    | cons f fs => exact ⟨rfl, rfl, rfl, rfl⟩
  · cases h

theorem proceed_of_none (h : concluded? s.phase = none) : proceed d s = (d.setSend s, []) := by
  obtain ⟨number, n, phase⟩ := s
  unfold concluded? at h
  dsimp only at h
  split at h
  · rw [Option.map_eq_none_iff] at h
    simp only [proceed, h]
  · rename_i hp
    unfold proceed
    split
    · rename_i he
      exact absurd he (hp _ _ _ _)
    · rfl

/-- Work on one send leaves the registry, the broker and the other sends as they are, and nothing is
said about them. -/
structure Touches (send : Nat) (d : Dispatcher) (x : Outcome) : Prop where
  registry : x.1.registry = d.registry
  broker : x.1.broker = d.broker
  others : ∀ j, j ≠ send → x.1.send? j = d.send? j
  unheard : heard x.2 = []
  quiet : ∀ j, j ≠ send → Quiet j x.2

theorem Touches.idle : Touches k d (d, []) := ⟨rfl, rfl, fun _ _ => rfl, rfl, fun _ _ => .nil⟩

theorem Touches.say {x : Outcome} (h : Touches k d x) (hh : heard o = [])
    (hq : ∀ j, j ≠ k → Quiet j o) : Touches k d (x.1, o ++ x.2) where
  registry := h.registry
  broker := h.broker
  others := h.others
  unheard := by rw [heard_append, hh, h.unheard]; rfl
  quiet j hj := (hq j hj).append (h.quiet j hj)

theorem sent_quiet (result : Sent) (h : j ≠ k) : Quiet j [.sent k result] := by
  refine ⟨rfl, rfl, ?_⟩
  simp [results, Ne.symm h]

theorem ended_quiet (t : Target) (event : Event) (x : Delivery) (h : j ≠ k) :
    Quiet j (ended k t event x) := by
  refine ⟨rfl, ?_, rfl⟩
  simp [endings, ended, Ne.symm h]

theorem proceed_touches (d : Dispatcher) (h : s.number = k) : Touches k d (proceed d s) := by
  subst h
  cases hc : concluded? s.phase with
  | some result =>
    obtain ⟨hs, hr, hb, ho⟩ := proceed_of_some (d := d) hc
    refine ⟨hr, hb, fun j hj => ?_, by rw [ho]; rfl, fun j hj => by rw [ho]; exact sent_quiet _ hj⟩
    have hdrop := send?_dropSend d s.number j
    rw [if_neg hj] at hdrop
    rw [← hdrop, Dispatcher.send?, hs]
    rfl
  | none =>
    rw [proceed_of_none hc]
    refine ⟨rfl, rfl, fun j hj => ?_, rfl, fun _ _ => .nil⟩
    rw [send?_setSend, if_neg hj]

/-- Whom a send is delivered to, in order: the broker, then the webhooks. -/
def targets (hooks : List Hook) : List Target := .broker :: hooks.map .hook

/-- The beginning of one delivery: its outcome, if it has one at once, and what is said. -/
def launch (d : Dispatcher) (send : Nat) (n : Encoded) : Target → Option Delivery × List Output
  | .broker => beginBroker d send n
  | .hook h => ((beginHook d send n h).1.outcome, (beginHook d send n h).2)

/-- A delivery begins, and ends at once or not. -/
structure Launched (send : Nat) (n : Encoded) (t : Target) (x : Option Delivery × List Output) :
    Prop where
  attempts : attempts send x.2 = [(t, n)]
  endings : endings send x.2 = x.1.toList.map (t, ·)
  results : results send x.2 = []
  unheard : heard x.2 = []
  quiet : ∀ j, j ≠ send → Quiet j x.2

theorem launched_at_once (k : Nat) (n : Encoded) (t : Target) (x : Delivery) :
    Launched k n t (some x, .attempted k t n :: ended k t n.event x) where
  attempts := by simp [attempts, ended]
  endings := by simp [endings, ended]
  results := by simp [results, ended]
  unheard := by simp [heard, ended]
  quiet j hj := by
    refine ⟨?_, ?_, ?_⟩ <;> simp [attempts, endings, results, ended, Ne.symm hj]

theorem launch_launched (d : Dispatcher) (k : Nat) (n : Encoded) (t : Target) :
    Launched k n t (launch d k n t) := by
  cases t with
  | broker =>
    simp only [launch, beginBroker]
    split
    · exact launched_at_once k n _ _
    · refine ⟨by simp [attempts], rfl, rfl, rfl, fun j hj => ⟨?_, rfl, rfl⟩⟩
      simp [attempts, Ne.symm hj]
  | hook h =>
    simp only [launch, beginHook]
    split
    · exact launched_at_once k n _ _
    · exact launched_at_once k n _ _
    · refine ⟨by simp [attempts], rfl, rfl, rfl, fun j hj => ⟨?_, rfl, rfl⟩⟩
      simp [attempts, Ne.symm hj]

/-- What is said when all deliveries of a send begin. -/
def launches (d : Dispatcher) (send : Nat) (n : Encoded) (hooks : List Hook) : List Output :=
  (targets hooks).flatMap fun t => (launch d send n t).2

theorem attempts_launches (d : Dispatcher) (k : Nat) (n : Encoded) (hooks : List Hook) :
    attempts k (launches d k n hooks) = (targets hooks).map (·, n) := by
  have h : attempts k (launches d k n hooks) =
      (targets hooks).flatMap fun t => attempts k (launch d k n t).2 := List.filterMap_flatMap
  simp only [h, (launch_launched d k n _).attempts, List.map_eq_flatMap]

theorem endings_launches (d : Dispatcher) (k : Nat) (n : Encoded) (hooks : List Hook) :
    endings k (launches d k n hooks) =
      (targets hooks).flatMap fun t => (launch d k n t).1.toList.map (t, ·) := by
  have h : endings k (launches d k n hooks) =
      (targets hooks).flatMap fun t => endings k (launch d k n t).2 := List.filterMap_flatMap
  simp only [h, (launch_launched d k n _).endings]

theorem results_launches (d : Dispatcher) (k : Nat) (n : Encoded) (hooks : List Hook) :
    results k (launches d k n hooks) = [] := by
  have h : results k (launches d k n hooks) =
      (targets hooks).flatMap fun t => results k (launch d k n t).2 := List.filterMap_flatMap
  simp [h, (launch_launched d k n _).results]

theorem heard_launches (d : Dispatcher) (k : Nat) (n : Encoded) (hooks : List Hook) :
    heard (launches d k n hooks) = [] := by
  have h : heard (launches d k n hooks) =
      (targets hooks).flatMap fun t => heard (launch d k n t).2 := List.filterMap_flatMap
  simp [h, (launch_launched d k n _).unheard]

theorem launches_quiet (d : Dispatcher) (n : Encoded) (hooks : List Hook) (h : j ≠ k) :
    Quiet j (launches d k n hooks) := by
  have hq : ∀ ts : List Target, Quiet j (ts.flatMap fun t => (launch d k n t).2) := by
    intro ts
    induction ts with
    | nil => exact .nil
    | cons t ts ih => exact ((launch_launched d k n t).quiet j h).append ih
  exact hq _

/-- All deliveries of a send begin, and then it goes on as far as it can. -/
theorem deliver_eq (d : Dispatcher) (s : Send) (before : List BackendFailure) (hooks : List Hook) :
    deliver d s before hooks =
      (let phase := .delivering before (launch d s.number s.notification .broker).1
        (hooks.map fun h => ⟨h, (launch d s.number s.notification (.hook h)).1⟩) d.registry.now
      let x := proceed d { s with phase }
      (x.1, launches d s.number s.notification hooks ++ x.2)) := by
  have hhook : ∀ h, (beginHook d s.number s.notification h).1 =
      ⟨h, (launch d s.number s.notification (.hook h)).1⟩ := by
    intro h
    simp only [launch, beginHook]
    split <;> rfl
  simp only [deliver, launches, targets, launch, List.flatMap_cons, List.flatMap_map, List.map_map,
    List.append_assoc]
  have hmap : (fun a => a.1) ∘ beginHook d s.number s.notification =
      fun h => ⟨h, (beginHook d s.number s.notification h).1.outcome⟩ := funext hhook
  rw [hmap]

theorem deliver_touches (d : Dispatcher) (s : Send) (before : List BackendFailure)
    (hooks : List Hook) : Touches s.number d (deliver d s before hooks) := by
  rw [deliver_eq]
  exact Touches.say (proceed_touches d rfl) (heard_launches d _ _ hooks)
    fun j hj => launches_quiet d _ hooks hj

theorem onResolved_touches (d : Dispatcher) (s : Send) (result : Resolved) :
    Touches s.number d (onResolved d s result) := by
  match result with
  | .ok e => exact deliver_touches d s _ _
  | .error (.storage x) =>
    have h := deliver_touches { d with stats :=
      { d.stats with storageFailures := d.stats.storageFailures + 1 } } s [ofStorage x] []
    exact ⟨h.registry, h.broker, h.others, h.unheard, h.quiet⟩
  | .error .closed =>
    refine ⟨rfl, rfl, fun j hj => ?_, rfl, fun j hj => sent_quiet _ hj⟩
    simp only [onResolved]
    rw [send?_dropSend, if_neg hj]

/-- What the outcome of a delivery makes of a send that waits for it. -/
inductive Told : Phase → Target → Delivery → Phase → Prop where
  | broker (before : List BackendFailure) (hooks : List HookAttempt) (since : Duration)
      (x : Delivery) :
      Told (.delivering before none hooks since) .broker x
        (.delivering before (some x) hooks since)
  | hook (before : List BackendFailure) (b : Option Delivery) {hooks : List HookAttempt}
      (since : Duration) {a : HookAttempt} {number : Nat}
      (asked : hooks.find? (fun a => a.hook.number == number && a.outcome.isNone) = some a)
      (x : Delivery) :
      Told (.delivering before b hooks since) (.hook a.hook) x
        (.delivering before b (hooks.map (record number x)) since)

/-- What an answer comes to: nobody waits for it, or a delivery of the send it is for ends. -/
inductive Answered (send : Nat) (d : Dispatcher) : Outcome → Prop where
  | dropped : Answered send d (d, [])
  | taken {s : Send} {t : Target} {x : Delivery} {phase : Phase} (found : d.send? send = some s)
      (told : Told s.phase t x phase) :
      Answered send d ((proceed d { s with phase }).1,
        ended send t s.notification.event x ++ (proceed d { s with phase }).2)

theorem brokerAnswer_answered (d : Dispatcher) (k : Nat) (a : Answer) :
    Answered k d (brokerAnswer d k a) := by
  unfold brokerAnswer
  split
  · rename_i s hs
    split
    · rename_i before hooks since hp
      have told := Told.broker before hooks since (d.broker.settle s.notification.topic a)
      rw [← hp] at told
      exact .taken hs told
    · exact .dropped
  · exact .dropped

theorem hookAnswer_answered (d : Dispatcher) (k hook : Nat)
    (result : Except Webhook.RequestError Nat) : Answered k d (hookAnswer d k hook result) := by
  unfold hookAnswer
  split
  · rename_i s hs
    split
    · rename_i before b hooks since hp
      split
      · rename_i a ha
        split
        · rename_i url _
          have told := Told.hook before b since ha (WebhookBackend.settle url result)
          rw [← hp] at told
          exact .taken hs told
        · exact .dropped
      · exact .dropped
    · exact .dropped
  · exact .dropped

/-- An answer is work on the send it is for. -/
theorem Answered.touches {x : Outcome} (h : Answered k d x) : Touches k d x := by
  cases h with
  | dropped => exact .idle
  | taken found =>
    obtain rfl := send?_number found
    exact Touches.say (proceed_touches d rfl) rfl fun j hj => ended_quiet _ _ _ hj

end Uplink.Dispatch
