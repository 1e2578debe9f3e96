import Uplink.Backend.Webhook

namespace Uplink.Webhook

open Backend Notification

variable {far : FarSide} {made : List Request} {r next : Request} {left : Nat} {x : Reply}
  {b : WebhookBackend} {n : Encoded} {url : Url}

namespace Reply

/-- The request that the client makes after a reply, if the reply is a redirection that it follows.
-/
def next? (r : Request) : Reply → Option Request
  | .failed => none
  | .answered status location => exchange.redirection r status location

/-- The far side says that it has taken the request. -/
def Accepts (x : Reply) : Prop :=
  ∃ status location, x = .answered status location ∧ 200 ≤ status ∧ status < 300

/-- How an exchange ends with a reply, which may be a redirection too many. -/
def ending (r : Request) : Reply → Except RequestError Nat
  | .failed => .error (.sending r.url)
  | .answered status location =>
    match exchange.redirection r status location with
    | some _ => .error (.redirecting r.url)
    | none => .ok status

/-- A reply that accepts a request leads nowhere, wherever it points to. -/
theorem Accepts.next? (h : x.Accepts) (r : Request) : x.next? r = none := by
  obtain ⟨status, location, rfl, hlow, hhigh⟩ := h
  have hr : ∀ url, r.redirected status url = none := by
    intro url
    have hget : ¬(status = 301 ∨ status = 302 ∨ status = 303) := by omega
    have hagain : ¬(status = 307 ∨ status = 308) := by omega
    rw [Request.redirected, if_neg hget, if_neg hagain]
  rw [Reply.next?, exchange.redirection, Option.bind_eq_none_iff]
  intro text _
  split
  · exact hr _
  · rfl

/-- A delivery succeeds when the last reply accepts its request, and not otherwise. -/
theorem settle_ending (url : Url) (r : Request) (x : Reply) :
    WebhookBackend.settle url (x.ending r) = .ok () ↔ x.Accepts := by
  constructor
  · intro h
    cases x with
    | failed => cases h
    | answered status location =>
      rw [ending] at h
      split at h
      · cases h
      · rw [WebhookBackend.settle] at h
        split at h
        · rename_i hs
          exact ⟨status, location, rfl, hs⟩
        · cases h
  · intro h
    have hn := h.next? r
    obtain ⟨status, location, rfl, hs⟩ := h
    rw [Reply.next?] at hn
    rw [ending, hn, WebhookBackend.settle, if_pos hs]

end Reply

theorem exchange_of_none (h : (far made r).next? r = none) (left : Nat) :
    exchange far made r left = ⟨made ++ [r], (far made r).ending r⟩ := by
  unfold exchange
  cases left <;> cases hf : far made r with
  | failed => rfl
  | answered status location =>
    rw [hf, Reply.next?] at h
    simp only [h, Reply.ending]

theorem exchange_of_some (h : (far made r).next? r = some next) (left : Nat) :
    exchange far made r (left + 1) = exchange far (made ++ [r]) next left := by
  rw [exchange]
  cases hf : far made r with
  | failed =>
    rw [hf] at h
    cases h
  | answered status location =>
    rw [hf, Reply.next?] at h
    simp only [h]

theorem exchange_exhausted (h : (far made r).next? r = some next) :
    exchange far made r 0 = ⟨made ++ [r], (far made r).ending r⟩ := by
  rw [exchange]
  cases hf : far made r with
  | failed => rfl
  | answered status location =>
    rw [hf, Reply.next?] at h
    simp only [h, Reply.ending]

/-- Requests of which each but the first is where the reply to the one before leads. -/
inductive Trail (far : FarSide) : List Request → List Request → Prop where
  | single (made : List Request) (r : Request) : Trail far made [r]
  | cons (made : List Request) (r next : Request) (rest : List Request)
      (leads : (far made r).next? r = some next) (tail : Trail far (made ++ [r]) (next :: rest)) :
      Trail far made (r :: next :: rest)

/-- An exchange makes a trail of requests, `last` being the last of them, and ends as the reply to
that one says. -/
structure Follows (far : FarSide) (made : List Request) (r : Request) (left : Nat) (x : Exchange)
    (prior : List Request) (last : Request) : Prop where
  requests : x.requests = made ++ (prior ++ [last])
  first : (prior ++ [last]).head? = some r
  trail : Trail far made (prior ++ [last])
  bound : prior.length ≤ left
  result : x.result = (far (made ++ prior) last).ending last
  stops : (far (made ++ prior) last).next? last = none ∨ prior.length = left

theorem Follows.single {left : Nat} (h : (far made r).next? r = none ∨ left = 0) :
    Follows far made r left ⟨made ++ [r], (far made r).ending r⟩ [] r where
  requests := rfl
  first := rfl
  trail := .single made r
  bound := Nat.zero_le left
  result := by rw [List.append_nil]
  stops := by
    rw [List.append_nil]
    exact h.imp id Eq.symm

theorem Follows.cons {x : Exchange} {prior : List Request} {last : Request}
    (hl : (far made r).next? r = some next)
    (h : Follows far (made ++ [r]) next left x prior last) :
    Follows far made r (left + 1) x (r :: prior) last where
  requests := by
    rw [h.requests]
    simp
  first := rfl
  trail := by
    obtain ⟨rest, hrest⟩ := List.head?_eq_some_iff.mp h.first
    have ht := h.trail
    rw [hrest] at ht
    rw [List.cons_append, hrest]
    exact .cons made r next rest hl ht
  bound := Nat.succ_le_succ h.bound
  result := by
    rw [h.result]
    simp
  stops := by
    have hs := h.stops
    rw [List.append_assoc, List.singleton_append] at hs
    exact hs.imp id (congrArg (· + 1))

/-- The client follows the far side from request to request, and no further than it may. -/
theorem exchange_follows (far : FarSide) (made : List Request) (r : Request) (left : Nat) :
    ∃ prior last, Follows far made r left (exchange far made r left) prior last := by
  induction left generalizing made r with
  | zero =>
    refine ⟨[], r, ?_⟩
    cases hn : (far made r).next? r with
    | none =>
      rw [exchange_of_none hn]
      exact .single (.inl hn)
    | some next =>
      rw [exchange_exhausted hn]
      exact .single (.inr rfl)
  | succ left ih =>
    cases hn : (far made r).next? r with
    | none =>
      rw [exchange_of_none hn]
      exact ⟨[], r, .single (.inl hn)⟩
    | some next =>
      obtain ⟨prior, last, h⟩ := ih (made ++ [r]) next
      rw [exchange_of_some hn]
      exact ⟨r :: prior, last, h.cons hn⟩

/-- The request that delivers a notification to a URL. -/
def post (b : WebhookBackend) (url : Url) (n : Encoded) : Request :=
  ⟨.post, url, b.endpoints.headers ++ [contentType], n.body⟩

theorem send_of_none (h : b.closed = false) (hu : b.endpoints.url? n.event = none)
    (far : FarSide) : b.send far n = ([], .ok ()) := by
  simp [WebhookBackend.send, WebhookBackend.request, h, Endpoints.request, hu]

theorem send_of_some (h : b.closed = false) (hu : b.endpoints.url? n.event = some url)
    (far : FarSide) :
    b.send far n = ((run far (post b url n)).requests,
      WebhookBackend.settle url (run far (post b url n)).result) := by
  simp [WebhookBackend.send, WebhookBackend.request, h, Endpoints.request, hu, post]

/-- A delivery makes its one POST, and succeeds just when that is accepted, exactly where the reply
to the POST leads nowhere else. In general it makes a trail of requests that begins with the POST,
and succeeds just when the last of them is accepted. -/
theorem post_alone_iff (b : WebhookBackend) (far : FarSide) (n : Encoded)
    (hopen : b.closed = false) :
    (b.endpoints.url? n.event = none → b.send far n = ([], .ok ())) ∧
      ∀ url, b.endpoints.url? n.event = some url →
        ((b.send far n).1 = [post b url n] ∧
            ((b.send far n).2 = .ok () ↔ (far [] (post b url n)).Accepts) ↔
          (far [] (post b url n)).next? (post b url n) = none) ∧
        ∃ prior last, (b.send far n).1 = prior ++ [last] ∧
          (prior ++ [last]).head? = some (post b url n) ∧
          Trail far [] (prior ++ [last]) ∧ prior.length ≤ redirectLimit ∧
          ((b.send far n).2 = .ok () ↔ (far prior last).Accepts) := by
  refine ⟨fun hu => send_of_none hopen hu far, fun url hu => ?_⟩
  rw [send_of_some hopen hu far]
  obtain ⟨prior, last, h⟩ := exchange_follows far [] (post b url n) redirectLimit
  change Follows far [] (post b url n) redirectLimit (run far (post b url n)) prior last at h
  refine ⟨⟨fun ⟨halone, _⟩ => ?_, fun hn => ?_⟩, prior, last, h.requests, h.first, h.trail,
    h.bound, ?_⟩
  · -- a trail of one request is one that leads nowhere, for there were redirections left
    have hone : prior ++ [last] = [post b url n] := h.requests.symm.trans halone
    obtain ⟨rfl, hlast⟩ : prior = [] ∧ [last] = [post b url n] := by
      cases prior with
      | nil => exact ⟨rfl, hone⟩
      | cons p ps => simp at hone
    cases hlast
    exact h.stops.resolve_right (by simp [redirectLimit])
  · rw [run, exchange_of_none hn]
    exact ⟨rfl, Reply.settle_ending url _ _⟩
  · rw [h.result]
    exact Reply.settle_ending url last _

def home : Url := ⟨"http", [], [], .domain ['a'], none, ['/'], none, none⟩

/-- An open backend that posts what happens at joining to the home page. -/
def toHome : WebhookBackend := .new ⟨none, some home, none, none, []⟩

def greeting : Encoded := ⟨7, .zero 8, .join, "null"⟩

theorem post_alone_greeting :
    toHome.closed = false ∧ toHome.endpoints.url? greeting.event = some home ∧
      (toHome.send (fun _ _ => .answered 204 none) greeting).1 = [post toHome home greeting] ∧
      (toHome.send (fun _ _ => .answered 204 none) greeting).2 = .ok () := by
  have h := (post_alone_iff toHome (fun _ _ => .answered 204 none) greeting rfl).2 home rfl
  obtain ⟨hone, hok⟩ := h.1.mpr rfl
  exact ⟨rfl, rfl, hone, hok.mpr ⟨204, none, rfl, by decide, by decide⟩⟩

/-- A far side that has moved, and answers every request but the first with success. -/
def moved : FarSide := fun made _ =>
  if made.isEmpty then .answered 302 (some "/y") else .answered 200 none

/-- A redirected delivery makes a second request, without a body, and reports its success. -/
theorem moved_succeeds_elsewhere :
    (toHome.send moved greeting).1 =
        [post toHome home greeting, ⟨.get, { home with path := ['/', 'y'] }, [], ""⟩] ∧
      (toHome.send moved greeting).2 = .ok () ∧ ¬(moved [] (post toHome home greeting)).Accepts := by
  refine ⟨by decide, rfl, ?_⟩
  rintro ⟨status, location, he, _, hs⟩
  cases he
  omega

end Uplink.Webhook
