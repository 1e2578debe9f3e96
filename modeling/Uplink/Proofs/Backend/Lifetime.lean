import Mathlib.Data.List.Induction
import Uplink.Backend.Broker

namespace Uplink.Backend

open Broker Notification Time

/-- How a publisher behaves when something is asked of it. -/
inductive Conduct where
  | done (after : Duration) (result : Except PublishError Unit)
  | never

namespace Conduct

/-- The publisher is done with this result when a limit has passed, if not before. -/
def EndsWithin (c : Conduct) (limit : Duration) (result : Except PublishError Unit) : Prop :=
  ∃ after ≤ limit, c = .done after result

def answered : Except PublishError Unit → Answer
  | .ok () => .accepted
  | .error e => .refused e

/-- What is seen of it by somebody who waits no longer than a limit. -/
def seen (limit : Duration) : Conduct → Answer
  | done after result => if after ≤ limit then answered result else .never
  | never => .never

variable {c : Conduct} {limit : Duration} {result result' : Except PublishError Unit}

theorem EndsWithin.iff_eq (h : c.EndsWithin limit result) :
    c.EndsWithin limit result' ↔ result = result' := by
  obtain ⟨after, hafter, rfl⟩ := h
  constructor
  · rintro ⟨after', -, h⟩
    exact (Conduct.done.inj h).2
  · rintro rfl
    exact ⟨after, hafter, rfl⟩

theorem not_endsWithin_never : ¬ never.EndsWithin limit result := by
  rintro ⟨after, -, h⟩
  cases h

/-- A result is seen in time, or nothing is. -/
theorem seen_cases (c : Conduct) (limit : Duration) :
    (∃ result, c.EndsWithin limit result ∧ c.seen limit = answered result) ∨
      (∀ result, ¬ c.EndsWithin limit result) ∧ c.seen limit = .never := by
  cases c with
  | never => exact .inr ⟨fun _ => not_endsWithin_never, rfl⟩
  | done after result =>
    by_cases h : after ≤ limit
    · exact .inl ⟨result, ⟨after, h, rfl⟩, if_pos h⟩
    · refine .inr ⟨?_, if_neg h⟩
      rintro result' ⟨after', hafter, heq⟩
      obtain rfl := (Conduct.done.inj heq).1
      exact h hafter

end Conduct

/-- How something ends that was asked of a publisher, given what was seen of it. -/
def conclusion (limit : Duration) (refusal : PublishError → BackendError) : Answer → Delivery
  | .accepted => .ok ()
  | .refused e => .error (refusal e)
  | .never => .error (.timeout limit)

theorem BrokerBackend.settle_eq (b : BrokerBackend) (topic : String) :
    b.settle topic = conclusion b.publishTimeout (.publish topic) := by
  funext a
  cases a <;> rfl

theorem BrokerBackend.settleClose_eq (b : BrokerBackend) :
    b.settleClose = conclusion b.disconnectTimeout .disconnect := by
  funext a
  cases a <;> rfl

/-- A delivery ends as the publisher does: well, with the publisher's own error, or with a timeout
where the publisher is not done in time. -/
structure Concludes (c : Conduct) (limit : Duration) (refusal : PublishError → BackendError)
    (d : Delivery) : Prop where
  ok : d = .ok () ↔ c.EndsWithin limit (.ok ())
  refused : ∀ e, d = .error (refusal e) ↔ c.EndsWithin limit (.error e)
  late : ∀ after, d = .error (.timeout after) ↔
    after = limit ∧ ∀ result, ¬ c.EndsWithin limit result

theorem concludes {refusal : PublishError → BackendError}
    (apart : ∀ e e', refusal e = refusal e' → e = e')
    (timely : ∀ e after, refusal e ≠ .timeout after) (c : Conduct) (limit : Duration) :
    Concludes c limit refusal (conclusion limit refusal (c.seen limit)) := by
  have hsame : ∀ e e', refusal e = refusal e' ↔ e = e' := fun e e' => ⟨apart e e', congrArg refusal⟩
  rcases c.seen_cases limit with ⟨result, hends, hseen⟩ | ⟨hnever, hseen⟩
  · rw [hseen]
    cases result with
    | ok u =>
      refine ⟨?_, fun e => ?_, fun after => ?_⟩
      · simp [Conduct.answered, conclusion, hends]
      · simp [Conduct.answered, conclusion, hends.iff_eq]
      · simp [Conduct.answered, conclusion, hends.iff_eq]
    | error e =>
      refine ⟨?_, fun e' => ?_, fun after => ?_⟩
      · simp [Conduct.answered, conclusion, hends.iff_eq]
      · simp [Conduct.answered, conclusion, hends.iff_eq, hsame]
      · simp [Conduct.answered, conclusion, hends.iff_eq, timely]
  · rw [hseen]
    refine ⟨?_, fun e => ?_, fun after => ?_⟩
    · simp [conclusion, hnever]
    · simp [conclusion, hnever, (timely e limit).symm]
    · simp [conclusion, hnever, eq_comm]

/-- A backend with the publisher it hands its notifications to. -/
structure Link where
  backend : BrokerBackend
  publisher : Publisher

namespace Link

inductive Step where
  /-- From now on the publisher behaves so when it is to publish. -/
  | publishing (c : Conduct)
  /-- From now on the publisher behaves so when it is to disconnect. -/
  | disconnecting (c : Conduct)
  | connected (value : Bool)
  | send (n : Encoded)
  | close

def start (qos : Qos) (publishTimeout disconnectTimeout : Duration)
    (publishing disconnecting : Conduct) (connected : Bool) : Link where
  backend := ⟨qos, publishTimeout, disconnectTimeout, false⟩
  publisher :=
    ⟨publishing.seen publishTimeout, disconnecting.seen disconnectTimeout, connected, [], 0⟩

def send (l : Link) (n : Encoded) : Link × Delivery :=
  let (publisher, result) := l.backend.send l.publisher n
  (⟨l.backend, publisher⟩, result)

def close (l : Link) : Link × Delivery :=
  let (backend, publisher, result) := l.backend.close l.publisher
  (⟨backend, publisher⟩, result)

def step (l : Link) : Step → Link
  | .publishing c =>
    { l with publisher := { l.publisher with answer := c.seen l.backend.publishTimeout } }
  | .disconnecting c =>
    { l with publisher :=
      { l.publisher with disconnectAnswer := c.seen l.backend.disconnectTimeout } }
  | .connected value => { l with publisher := { l.publisher with connected := value } }
  | .send n => (l.send n).1
  | .close => l.close.1

def run (l : Link) (steps : List Step) : Link := steps.foldl step l

def Step.isClose : Step → Bool
  | .close => true
  | _ => false

def Step.publishing? : Step → Option Conduct
  | .publishing c => some c
  | _ => none

def Step.disconnecting? : Step → Option Conduct
  | .disconnecting c => some c
  | _ => none

def Step.message? (qos : Qos) : Step → Option Message
  | .send n => some ⟨topic n.applicationId n.devEui n.event, qos, n.body⟩
  | _ => none

/-- Whether there was a close. -/
def closed (past : List Step) : Bool := past.any Step.isClose

/-- What was said last, or before anything else. -/
def latest (said? : Step → Option Conduct) (first : Conduct) (past : List Step) : Conduct :=
  (past.filterMap said?).getLast?.getD first

/-- The messages of all that was sent before the first close, in order. -/
def messages (qos : Qos) (past : List Step) : List Message :=
  (past.takeWhile (!·.isClose)).filterMap (Step.message? qos)

variable {past : List Step} {s : Step} {qos : Qos} {first : Conduct}
  {said? : Step → Option Conduct}

theorem run_snoc (l : Link) (past : List Step) (s : Step) :
    l.run (past ++ [s]) = (l.run past).step s := by
  simp only [run, List.foldl_append, List.foldl_cons, List.foldl_nil]

@[simp] theorem closed_snoc : closed (past ++ [s]) = (closed past || s.isClose) := by
  simp [closed]

@[simp] theorem latest_snoc :
    latest said? first (past ++ [s]) = (said? s).getD (latest said? first past) := by
  cases h : said? s <;> simp [latest, List.filterMap_append, h]

theorem messages_cons : messages qos (s :: past) =
    if s.isClose then [] else (s.message? qos).toList ++ messages qos past := by
  cases hclose : s.isClose with
  | true => simp [messages, hclose]
  | false =>
    cases hmessage : s.message? qos <;> simp [messages, hclose, hmessage]

theorem messages_snoc : messages qos (past ++ [s]) =
    messages qos past ++ if closed past then [] else (s.message? qos).toList := by
  induction past with
  | nil => cases s <;> rfl
  | cons first past ih =>
    have hclosed : closed (first :: past) = (first.isClose || closed past) := List.any_cons
    rw [List.cons_append, messages_cons, messages_cons, ih, hclosed]
    cases first.isClose with
    | true => simp
    | false => simp

attribute [simp] Step.isClose Step.publishing? Step.disconnecting? Step.message?

/-- A link after a run from its start: what it was asked decides all of it but whether the publisher
is connected, which nobody here asks. -/
structure Follows (l : Link) (qos : Qos) (publishTimeout disconnectTimeout : Duration)
    (publishing disconnecting : Conduct) (past : List Step) : Prop where
  backend : l.backend = ⟨qos, publishTimeout, disconnectTimeout, closed past⟩
  answer : l.publisher.answer = (latest Step.publishing? publishing past).seen publishTimeout
  disconnectAnswer : l.publisher.disconnectAnswer =
    (latest Step.disconnecting? disconnecting past).seen disconnectTimeout
  calls : l.publisher.calls.map Prod.fst = messages qos past
  disconnects : l.publisher.disconnects = if closed past then 1 else 0

variable {l : Link} {publishTimeout disconnectTimeout : Duration}
  {publishing disconnecting : Conduct}

theorem send_of_open (h : l.backend.closed = false) (n : Encoded) : l.send n =
    (⟨l.backend, l.publisher.publish (l.backend.message n)⟩,
      conclusion l.backend.publishTimeout (.publish n.topic) l.publisher.answer) := by
  simp [send, BrokerBackend.send, h, BrokerBackend.settle_eq]

theorem send_of_closed (h : l.backend.closed = true) (n : Encoded) :
    l.send n = (l, .error .closed) := by
  simp [send, BrokerBackend.send, h]

theorem close_of_open (h : l.backend.closed = false) : l.close =
    (⟨{ l.backend with closed := true }, l.publisher.disconnect⟩,
      conclusion l.backend.disconnectTimeout .disconnect l.publisher.disconnectAnswer) := by
  simp [close, BrokerBackend.close, h, BrokerBackend.settleClose_eq]

theorem close_of_closed (h : l.backend.closed = true) : l.close = (l, .ok ()) := by
  simp [close, BrokerBackend.close, h]

theorem Follows.message_eq
    (h : l.Follows qos publishTimeout disconnectTimeout publishing disconnecting past)
    (n : Encoded) :
    l.backend.message n = ⟨topic n.applicationId n.devEui n.event, qos, n.body⟩ := by
  rw [h.backend]
  rfl

theorem follows_start (connected : Bool) :
    (start qos publishTimeout disconnectTimeout publishing disconnecting connected).Follows
      qos publishTimeout disconnectTimeout publishing disconnecting [] :=
  ⟨rfl, rfl, rfl, rfl, rfl⟩

theorem Follows.send
    (h : l.Follows qos publishTimeout disconnectTimeout publishing disconnecting past)
    (n : Encoded) :
    (l.send n).1.Follows qos publishTimeout disconnectTimeout publishing disconnecting
      (past ++ [.send n]) := by
  have hclosed : l.backend.closed = closed past := by rw [h.backend]
  cases hpast : closed past with
  | true =>
    rw [send_of_closed (hclosed.trans hpast)]
    exact ⟨by simp [h.backend], by simp [h.answer], by simp [h.disconnectAnswer],
      by simp [h.calls, messages_snoc, hpast], by simp [h.disconnects]⟩
  | false =>
    rw [send_of_open (hclosed.trans hpast), h.message_eq]
    exact ⟨by simp [h.backend], by simp [Publisher.publish, h.answer],
      by simp [Publisher.publish, h.disconnectAnswer],
      by simp [Publisher.publish, h.calls, messages_snoc, hpast],
      by simp [Publisher.publish, h.disconnects]⟩

theorem Follows.close
    (h : l.Follows qos publishTimeout disconnectTimeout publishing disconnecting past) :
    l.close.1.Follows qos publishTimeout disconnectTimeout publishing disconnecting
      (past ++ [.close]) := by
  have hclosed : l.backend.closed = closed past := by rw [h.backend]
  cases hpast : closed past with
  | true =>
    rw [close_of_closed (hclosed.trans hpast)]
    exact ⟨by simp [h.backend, hpast], by simp [h.answer], by simp [h.disconnectAnswer],
      by simp [h.calls, messages_snoc], by simp [h.disconnects, hpast]⟩
  | false =>
    rw [close_of_open (hclosed.trans hpast)]
    exact ⟨by simp [h.backend], by simp [Publisher.disconnect, h.answer],
      by simp [Publisher.disconnect, h.disconnectAnswer],
      by simp [Publisher.disconnect, h.calls, messages_snoc],
      by simp [Publisher.disconnect, h.disconnects, hpast]⟩

theorem Follows.step
    (h : l.Follows qos publishTimeout disconnectTimeout publishing disconnecting past) :
    (l.step s).Follows qos publishTimeout disconnectTimeout publishing disconnecting
      (past ++ [s]) := by
  cases s with
  | publishing c =>
    exact ⟨by simp [Link.step, h.backend], by simp [Link.step, h.backend],
      by simp [Link.step, h.disconnectAnswer], by simp [Link.step, h.calls, messages_snoc],
      by simp [Link.step, h.disconnects]⟩
  | disconnecting c =>
    exact ⟨by simp [Link.step, h.backend], by simp [Link.step, h.answer],
      by simp [Link.step, h.backend], by simp [Link.step, h.calls, messages_snoc],
      by simp [Link.step, h.disconnects]⟩
  | connected value =>
    exact ⟨by simp [Link.step, h.backend], by simp [Link.step, h.answer],
      by simp [Link.step, h.disconnectAnswer], by simp [Link.step, h.calls, messages_snoc],
      by simp [Link.step, h.disconnects]⟩
  | send n => exact h.send n
  | close => exact h.close

theorem follows_run (connected : Bool) (past : List Step) :
    ((start qos publishTimeout disconnectTimeout publishing disconnecting connected).run
      past).Follows qos publishTimeout disconnectTimeout publishing disconnecting past := by
  induction past using List.reverseRecOn with
  | nil => exact follows_start connected
  | append_singleton past s ih =>
    rw [run_snoc]
    exact ih.step

/-- A link after any run. Before the first close a send hands the publisher the notification, once,
and a close disconnects, once; each ends as the publisher does within its time. From the first
close on, however it ended, neither asks the publisher for anything. -/
theorem open_until_closed (qos : Qos) (publishTimeout disconnectTimeout : Duration)
    (publishing disconnecting : Conduct) (connected : Bool) (past : List Step) :
    let l := (start qos publishTimeout disconnectTimeout publishing disconnecting connected).run past
    (closed past = false →
      (∀ n : Encoded,
        (l.send n).1 = ⟨l.backend,
          l.publisher.publish ⟨topic n.applicationId n.devEui n.event, qos, n.body⟩⟩ ∧
        Concludes (latest Step.publishing? publishing past) publishTimeout
          (.publish (topic n.applicationId n.devEui n.event)) (l.send n).2) ∧
      l.close.1 = ⟨{ l.backend with closed := true }, l.publisher.disconnect⟩ ∧
      Concludes (latest Step.disconnecting? disconnecting past) disconnectTimeout .disconnect
        l.close.2) ∧
    (closed past = true → (∀ n, l.send n = (l, .error .closed)) ∧ l.close = (l, .ok ())) ∧
    l.publisher.calls.map Prod.fst = messages qos past ∧
    l.publisher.disconnects = if closed past then 1 else 0 := by
  intro l
  have h : l.Follows qos publishTimeout disconnectTimeout publishing disconnecting past :=
    follows_run connected past
  have hclosed : l.backend.closed = closed past := by rw [h.backend]
  refine ⟨fun hpast => ?_, fun hpast => ?_, h.calls, h.disconnects⟩
  · have hopen : l.backend.closed = false := hclosed.trans hpast
    refine ⟨fun n => ?_, ?_⟩
    · rw [send_of_open hopen, h.message_eq, h.answer, h.backend]
      exact ⟨rfl, concludes (by simp) (by simp) _ _⟩
    · rw [close_of_open hopen, h.disconnectAnswer]
      refine ⟨rfl, ?_⟩
      rw [h.backend]
      exact concludes (by simp) (by simp) _ _
  · have hshut : l.backend.closed = true := hclosed.trans hpast
    exact ⟨send_of_closed hshut, close_of_closed hshut⟩

/-- A link whose publisher takes its time to publish and never disconnects. -/
def slow : Link :=
  start .atLeastOnce (.ofMillis 50) (.ofMillis 20) (.done (.ofMillis 30) (.ok ())) .never true

def uplink : Encoded := ⟨1, default, .rx, "up"⟩

/-- The close that fails is the last all the same. -/
theorem open_until_closed_slow :
    closed [] = false ∧ (slow.send uplink).2 = .ok () ∧
      slow.close.2 = .error (.timeout (.ofMillis 20)) ∧
      closed [.close] = true ∧
      (slow.run [.close]).send uplink = (slow.run [.close], .error .closed) ∧
      (slow.run [.close]).close = (slow.run [.close], .ok ()) := by
  obtain ⟨hopen, -, -, -⟩ := open_until_closed .atLeastOnce (.ofMillis 50) (.ofMillis 20)
    (.done (.ofMillis 30) (.ok ())) .never true []
  obtain ⟨hsend, -, hclose⟩ := hopen rfl
  obtain ⟨-, hshut, -, -⟩ := open_until_closed .atLeastOnce (.ofMillis 50) (.ofMillis 20)
    (.done (.ofMillis 30) (.ok ())) .never true [.close]
  obtain ⟨hrefused, hagain⟩ := hshut rfl
  have haccepted : (slow.send uplink).2 = .ok () :=
    (hsend uplink).2.ok.mpr ⟨.ofMillis 30, by decide, rfl⟩
  have hlate : slow.close.2 = .error (.timeout (.ofMillis 20)) :=
    (hclose.late _).mpr ⟨rfl, fun _ => Conduct.not_endsWithin_never⟩
  exact ⟨rfl, haccepted, hlate, rfl, hrefused uplink, hagain⟩

end Link

end Uplink.Backend
