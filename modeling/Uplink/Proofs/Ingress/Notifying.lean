import Uplink.Proofs.Service.Sending

namespace Uplink.Ingress

open Backend Dispatch Notification Service

variable {production : Bool} {s : Service} {r : Request} {event : Event} {p q : Payload}
  {a : Answered} {result : Sent} {failures : List BackendFailure}

/-- The body of a request is accepted as the payload of an event, and is about an application. -/
structure Accepted (r : Request) (event : Event) (p : Payload) : Prop where
  method : r.method = "POST"
  json : r.saysJson = true
  length : r.body.utf8ByteSize ≤ bodyMax
  read : Payload.ofText event r.body = .ok p
  positive : 0 < p.applicationId

theorem Accepted.unique (h : Accepted r event p) (h' : Accepted r event q) : p = q :=
  Except.ok.inj (h.read.symm.trans h'.read)

/-- The response to what a send has come to. -/
def responseTo (production : Bool) (time : Time.Timestamp) : Sent → Response
  | .ok _ => delivered time
  | .error e => (Refusal.dispatch e).response production

theorem responseTo_status (production : Bool) (time : Time.Timestamp) (result : Sent) :
    let status := (responseTo production time result).status
    (status = 200 ↔ result = .ok ()) ∧
      (status = 502 ↔ ∃ failures, result = .error (.delivery failures)) ∧
      (status = 503 ↔ result = .error .closed) ∧
      (status = 500 ↔ ∃ fault, result = .error (.encode fault)) ∧
      status ∈ [200, 500, 502, 503] := by
  rcases result with e | u
  · cases e <;> simp [responseTo, Refusal.response, Response.json, Refusal.status]
  · simp [responseTo, delivered, Response.json]

/-- What is answered to a request for a notification. -/
inductive Answers (production : Bool) (s : Service) (r : Request) (event : Event) :
    Answered → Prop where
  | rejected (response : Response) (unaccepted : ∀ p, ¬Accepted r event p)
      (status : response.status ∈ [400, 405, 413, 415, 422]) :
      Answers production s r event (s, response)
  | sent (p : Payload) (accepted : Accepted r event p) :
      Answers production s r event
        ((s.send p.encode).1, responseTo production r.time (s.send p.encode).2)

theorem bodyFault_status (fault : BodyFault) : fault.response.status ∈ [400, 413, 415, 422] := by
  cases fault with
  | notJson => decide
  | tooLong => decide
  | unreadable fault =>
    simp only [BodyFault.response]
    cases fault.category <;> simp [Response.plain]

/-- The body of a request is read as a payload just when it is announced as JSON, not too long, and
one. -/
theorem payload_eq_ok :
    r.payload event = .ok p ↔
      r.saysJson = true ∧ r.body.utf8ByteSize ≤ bodyMax ∧ Payload.ofText event r.body = .ok p := by
  cases hj : r.saysJson with
  | false => simp [Request.payload, hj]
  | true =>
    by_cases hl : bodyMax < r.body.utf8ByteSize
    · simp [Request.payload, hj, hl, Nat.not_le.mpr hl]
    · have hl' := Nat.not_lt.mp hl
      cases ho : Payload.ofText event r.body <;> simp [Request.payload, hj, hl, hl', ho]

theorem notify_answers (hm : r.method = "POST") (hp : r.payload event = .ok p) :
    Answers production s r event (notify production s r.time p) := by
  obtain ⟨hjson, hlength, hread⟩ := payload_eq_ok.mp hp
  unfold notify
  split
  · rename_i hnot
    apply Answers.rejected
    · intro q hq
      obtain rfl : p = q := Except.ok.inj (hread.symm.trans hq.read)
      exact absurd hq.positive (Int64.not_lt.mpr hnot)
    · simp [Refusal.response, Response.json, Refusal.status]
  · rename_i hpos
    have haccepted : Accepted r event p := ⟨hm, hjson, hlength, hread, Int64.not_le.mp hpos⟩
    have hsent : Answers production s r event
        ((s.send p.encode).1, responseTo production r.time (s.send p.encode).2) := .sent p haccepted
    dsimp only
    cases hs : (s.send p.encode).2 <;> rwa [hs] at hsent

theorem answer_answers (hr : Route.ofTarget r.target = some (.notify event)) :
    Answers production s r event (answer production s r) := by
  simp only [answer, hr]
  by_cases hm : r.method = "POST"
  · have hallowed : (Route.notify event).methods.contains r.method = true := by
      rw [hm]
      rfl
    have hbody : (if r.method = "HEAD" then (answerRoute production s r (.notify event)).2.withoutBody
        else (answerRoute production s r (.notify event)).2) =
        (answerRoute production s r (.notify event)).2 := by
      rw [if_neg]
      rw [hm]
      decide
    rw [if_pos hallowed, hbody]
    simp only [answerRoute]
    cases hp : r.payload event with
    | ok p => exact notify_answers hm hp
    | error fault =>
      apply Answers.rejected
      · intro p h
        rw [payload_eq_ok.mpr ⟨h.json, h.length, h.read⟩] at hp
        cases hp
      · have hstatus := bodyFault_status fault
        simp only [List.mem_cons] at hstatus ⊢
        tauto
  · have hforbidden : ¬(Route.notify event).methods.contains r.method = true := by
      simpa [Route.methods] using hm
    rw [if_neg hforbidden]
    apply Answers.rejected
    · intro p h
      exact hm h.method
    · simp [Response.methodNotAllowed]

/-- The backend that an item of an answer names. -/
def backend? (item : Json) : Option String :=
  match item.get? "backend" with
  | some (.text name) => some name
  | _ => none

/-- The backends that the body of an answer names as failed, in order. -/
def failedBackends? : Body → Option (List String)
  | .json v =>
    match (v.get? "error").bind (·.get? "failures") with
    | some (.list items) => items.mapM backend?
    | _ => none
  | .text _ => none

theorem failedBackends?_delivery (production : Bool) (hne : failures ≠ []) :
    failedBackends? ((Refusal.dispatch (.delivery failures)).response production).body =
      some (backendNames failures) := by
  have hitems : ∀ failures : List BackendFailure,
      (failures.map (Refusal.failureJson production)).mapM backend? =
        some (backendNames failures) := by
    intro failures
    induction failures with
    | nil => rfl
    | cons f failures ih =>
      rw [List.map_cons, List.mapM_cons, ih]
      rfl
  cases failures with
  | nil => exact absurd rfl hne
  | cons f rest => exact hitems (f :: rest)

/-- An answer to a request for a notification says what has come of it: that the notification was
sent and that it was delivered, which backends have failed, or that the service is closed. Any other
answer leaves the service as it was. -/
structure Faithful (s : Service) (r : Request) (event : Event) (a : Answered) : Prop where
  delivered : a.2.status = 200 ↔ ∃ p, Accepted r event p ∧ Returns s p.encode (.ok ())
  failed : a.2.status = 502 ↔
    ∃ p failures, Accepted r event p ∧ Returns s p.encode (.error (.delivery failures))
  /-- The failed backends are named in order, and as often as they have failed. -/
  named : ∀ p failures, Accepted r event p →
    Returns s p.encode (.error (.delivery failures)) →
      failedBackends? a.2.body = some (backendNames failures)
  closed : a.2.status = 503 ↔ ∃ p, Accepted r event p ∧ Returns s p.encode (.error .closed)
  encoded : a.2.status ≠ 500
  sent : ∀ p, Accepted r event p → a.1 = (s.send p.encode).1
  untouched : a.2.status ∉ [200, 502, 503] → a.1 = s

theorem faithful_of_rejected {response : Response} (hn : ∀ p, ¬Accepted r event p)
    (hs : response.status ∈ [400, 405, 413, 415, 422]) : Faithful s r event (s, response) := by
  have hother : ∀ code ∈ [200, 502, 503, 500], response.status ≠ code := by
    intro code hc he
    rw [he] at hs
    have hapart : ∀ code ∈ [200, 502, 503, 500], code ∉ [400, 405, 413, 415, 422] := by decide
    exact hapart code hc hs
  refine ⟨?_, ?_, ?_, ?_, hother 500 (by decide), ?_, fun _ => rfl⟩
  · apply iff_of_false (hother 200 (by decide))
    rintro ⟨p, hp, -⟩
    exact hn p hp
  · apply iff_of_false (hother 502 (by decide))
    rintro ⟨p, -, hp, -⟩
    exact hn p hp
  · intro p _ hp
    exact absurd hp (hn p)
  · apply iff_of_false (hother 503 (by decide))
    rintro ⟨p, hp, -⟩
    exact hn p hp
  · intro p hp
    exact absurd hp (hn p)

/-- A request is accepted as one payload, and its send returns once. -/
theorem returns_accepted (hs : Reached s) (hp : Accepted r event p) (result : Sent) :
    (∃ q, Accepted r event q ∧ Returns s q.encode result) ↔ (s.send p.encode).2 = result := by
  constructor
  · rintro ⟨q, hq, hret⟩
    rw [hp.unique hq]
    exact hret.send
  · intro hsent
    exact ⟨p, hp, (returns_iff hs p.encode result).mpr hsent⟩

theorem fails_accepted (hs : Reached s) (hp : Accepted r event p) :
    (∃ q failures, Accepted r event q ∧ Returns s q.encode (.error (.delivery failures))) ↔
      ∃ failures, (s.send p.encode).2 = .error (.delivery failures) := by
  rw [exists_comm]
  exact exists_congr fun failures => returns_accepted hs hp _

theorem faithful_of_sent (production : Bool) (hs : Reached s) (hp : Accepted r event p) :
    Faithful s r event
      ((s.send p.encode).1, responseTo production r.time (s.send p.encode).2) := by
  obtain ⟨hok, hdelivery, hclosed, hencode, hstatus⟩ :=
    responseTo_status production r.time (s.send p.encode).2
  have hunencoded : (responseTo production r.time (s.send p.encode).2).status ≠ 500 := by
    intro h
    obtain ⟨fault, hfault⟩ := hencode.mp h
    rcases send_error hs hfault with he | ⟨f, rest, he⟩ <;> cases he
  constructor
  case delivered => exact hok.trans (returns_accepted hs hp _).symm
  case failed => exact hdelivery.trans (fails_accepted hs hp).symm
  case closed => exact hclosed.trans (returns_accepted hs hp _).symm
  case named =>
    intro q failures hq hret
    rw [← hp.unique hq, returns_iff hs] at hret
    have hne : failures ≠ [] := by
      rintro rfl
      rcases send_error hs hret with he | ⟨f, rest, he⟩ <;> cases he
    rw [hret]
    exact failedBackends?_delivery production hne
  case encoded => exact hunencoded
  case sent =>
    intro q hq
    rw [hp.unique hq]
  case untouched =>
    intro hother
    simp only [List.mem_cons, List.not_mem_nil, or_false] at hother hstatus
    omega

/-- Every request for a notification is answered faithfully by a service as it can be met, whatever
else it has in flight. -/
theorem notification_answers_faithful (production : Bool) (s : Service) (r : Request)
    (event : Event) (hs : Reached s) (hr : Route.ofTarget r.target = some (.notify event)) :
    Faithful s r event (answer production s r) := by
  have ha : Answers production s r event (answer production s r) := answer_answers hr
  generalize answer production s r = a at ha
  cases ha with
  | rejected response unaccepted status => exact faithful_of_rejected unaccepted status
  | sent p accepted => exact faithful_of_sent production hs accepted

/-- A device with the shortest of notifications that it has joined. -/
def greeting : Request where
  method := "POST"
  target := "/api/v1/notifications/join"
  headers := [("content-type", "application/json")]
  body := "\x7b\"applicationID\":\"7\",\"devEUI\":\"0101010101010101\"\x7d"
  time := ⟨0, 0, 0⟩

def greeted : Payload := .join ⟨7, "", "", ⟨List.replicate 8 1, rfl⟩, default⟩

/-- A service in front of a row of an unknown kind. -/
def unmailed : Service :=
  start (.new .atMostOnce ⟨5⟩) none (.table [⟨7, "MAIL", .null⟩]) Webhook.unreachable

theorem notification_answers_faithful_unmailed :
    Reached unmailed ∧ Route.ofTarget greeting.target = some (.notify .join) ∧
      (answer false unmailed greeting).2.status = 502 ∧
      failedBackends? (answer false unmailed greeting).2.body = some ["MAIL"] := by
  have hs : Reached unmailed := reached_start _ _ _ _
  have hr : Route.ofTarget greeting.target = some (.notify .join) := rfl
  have haccepted : Accepted greeting .join greeted :=
    ⟨rfl, by decide +kernel, by decide, rfl, by decide⟩
  have hreturns : Returns unmailed greeted.encode
      (.error (.delivery [⟨"MAIL", .configuration (.unknownKind "MAIL")⟩])) := rfl
  have hfaithful := notification_answers_faithful false unmailed greeting .join hs hr
  exact ⟨hs, hr, hfaithful.failed.mpr ⟨_, _, haccepted, hreturns⟩,
    hfaithful.named _ _ haccepted hreturns⟩

theorem answerRoute_reached (production : Bool) (h : Reached s) (r : Request) (route : Route) :
    Reached (answerRoute production s r route).1 := by
  cases route with
  | health => exact h
  | metrics => exact h.of_same rfl rfl
  | notify event =>
    simp only [answerRoute]
    split
    · rename_i p _
      unfold notify
      split
      · exact h
      · have hsend := h.send p.encode
        dsimp only
        split <;> exact hsend
    · exact h
  | reload segment =>
    simp only [answerRoute]
    split
    · exact h.plays (perform_plays s _) rfl
    · exact h
  | reloadAll => exact h.plays (perform_plays s _) rfl

/-- A service that has answered a request, whichever, is one that can be met. -/
theorem answer_reached (production : Bool) (h : Reached s) (r : Request) :
    Reached (answer production s r).1 := by
  unfold answer
  split
  · exact h
  · rename_i route _
    split
    · exact answerRoute_reached production h r route
    · exact h

end Uplink.Ingress
