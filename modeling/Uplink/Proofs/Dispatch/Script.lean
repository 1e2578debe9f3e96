import Mathlib.Algebra.Order.Group.Multiset
import Uplink.Proofs.Dispatch.Balance
import Uplink.Proofs.Dispatch.World
import Uplink.Proofs.Registry.Steady

namespace Uplink.Dispatch

open Backend Broker Notification Registry Time

variable {d : Dispatcher} {k : Nat} {n : Encoded} {o o' : List Output} {s t : Send} {x y : Outcome}
  {outs : List Registry.Output} {hooks : List Hook} {result : Resolved}

/-- Numbers of webhooks are given in the order of loading and tell nothing. -/
def Target.bare : Target → Target
  | .broker => .broker
  | .hook h => .hook { h with number := 0 }

/-- An output as it tells of a send, or of its failed lookup. -/
def Output.bare? : Output → Option Output
  | .attempted k t n => some (.attempted k t.bare n)
  | .published k m => some (.published k m)
  | .requested k _ r => some (.requested k 0 r)
  | .delivered k t x => some (.delivered k t.bare x)
  | .sent k result => some (.sent k result)
  | .counted (.notification event) => some (.counted (.notification event))
  | .counted (.delivery b event success) => some (.counted (.delivery b event success))
  | .resolved k (.error (.storage x)) => some (.resolved k (.error (.storage x)))
  | _ => none

/-- What is said of sends, but for the numbers of webhooks. -/
def said (o : List Output) : List Output := o.filterMap Output.bare?

@[simp] theorem said_append (o o' : List Output) : said (o ++ o') = said o ++ said o' :=
  List.filterMap_append

theorem said_ended (k : Nat) (t : Target) (event : Event) (x : Delivery) :
    said (ended k t event x) = ended k t.bare event x := by
  cases t <;> rfl

/-- What decides how sends go: the world, the lookups, what calls come to, the broker, and what is
closed. -/
structure Setting where
  world : World
  /-- What lookups are answered. -/
  lookup : Int64 → Lookup
  /-- What calls come to. -/
  settled : Int64 → Lookup
  broker : BrokerBackend
  closed : Bool
  /-- Whether the registry is closed. -/
  shut : Bool

namespace Setting

variable (S : Setting)

def outcome (n : Encoded) (t : Target) : Delivery := S.world.outcome S.broker n t

/-- What is said as a delivery begins. -/
def opening (k : Nat) (n : Encoded) (t : Target) : List Output :=
  .attempted k t.bare n ::
    match t with
    | .broker => if S.broker.closed then [] else [.published k (S.broker.message n)]
    | .hook h => (h.endpoints.request n).toList.map fun r => .requested k 0 r

/-- What is said as a delivery ends. -/
def closing (k : Nat) (n : Encoded) (t : Target) : List Output :=
  ended k t.bare n.event (S.outcome n t)

/-- What is still to be said of a delivery that has come so far. -/
def awaited (k : Nat) (n : Encoded) (t : Target) : Option Delivery → List Output
  | none => S.closing k n t
  | some _ => []

/-- How a send ends whose deliveries end as they have or will. -/
def verdict (n : Encoded) (before : List BackendFailure) (broker : Option Delivery)
    (hooks : List HookAttempt) : Sent :=
  report (before ++ (ofDelivery BrokerBackend.name (broker.getD (S.outcome n .broker))).toList
    ++ (hooks.map fun a => a.outcome.getD (S.outcome n (.hook a.hook))).filterMap
      (ofDelivery WebhookBackend.name))

/-- What is said of a send from its deliveries on. -/
def delivery (k : Nat) (n : Encoded) (before : List BackendFailure) (hooks : List Hook) :
    List Output :=
  (targets hooks).flatMap (fun t => S.opening k n t ++ S.closing k n t)
    ++ [.sent k (S.verdict n before none (hooks.map (⟨·, none⟩)))]

/-- What is said of a send once it has called the registry. -/
def script (k : Nat) (n : Encoded) : List Output :=
  if S.shut then [.sent k (.error .closed)]
  else
    match S.settled n.applicationId with
    | .ok rows => S.delivery k n ((unbuilt rows).map ofConfiguration) ((built rows).map (⟨0, ·⟩))
    | .error x => .resolved k (.error (.storage x)) :: S.delivery k n [ofStorage x] []

/-- All that is said of a send. -/
def whole (k : Nat) (n : Encoded) : List Output :=
  if S.closed then [.sent k (.error .closed)]
  else .counted (.notification n.event) :: S.script k n

/-- What is still to be said of a send in flight. -/
def rest (s : Send) : List Output :=
  match s.phase with
  | .resolving => S.script s.number s.notification
  | .delivering before broker hooks _ =>
    S.awaited s.number s.notification .broker broker
      ++ hooks.flatMap (fun a => S.awaited s.number s.notification (.hook a.hook) a.outcome)
      ++ [.sent s.number (S.verdict s.notification before broker hooks)]

/-- What is still to be said of all sends in flight. -/
def left (d : Dispatcher) : Multiset Output := d.sends.flatMap S.rest

/-- A send in flight waits for something, and was begun in this setting. -/
structure Underway (s : Send) : Prop where
  unconcluded : concluded? s.phase = none
  broker : ∀ before hooks since, s.phase = .delivering before none hooks since →
    S.broker.closed = false
  hooks : ∀ before broker hooks since, s.phase = .delivering before broker hooks since →
    ∀ a ∈ hooks, a.outcome = none → (a.hook.endpoints.request s.notification).isSome

/-- A dispatcher is in this setting. -/
structure Holds (d : Dispatcher) : Prop where
  broker : d.broker = S.broker
  closed : d.closed = S.closed
  shut : d.registry.closed = S.shut
  steady : Steady S.lookup S.settled d.registry
  /-- Where the registry is open, so are the webhooks. -/
  unreleased : d.registry.closed = false → d.registry.released = []
  underway : ∀ s ∈ d.sends, S.Underway s

end Setting

variable {S : Setting}

theorem left_of_split {pre post : List Send} (h : d.sends = pre ++ s :: post) :
    S.left d = S.rest s + ((pre ++ post).flatMap S.rest : Multiset Output) := by
  simp only [Setting.left, h, List.flatMap_append, List.flatMap_cons, ← Multiset.coe_add]
  exact add_left_comm ..

theorem left_dropSend (hn : Apart d) (ht : d.send? k = some t) :
    S.left (d.dropSend k) + S.rest t = S.left d := by
  obtain ⟨pre, post, hsplit, hsends⟩ := dropSend_split hn ht
  rw [left_of_split hsplit, Setting.left, hsends, add_comm]

theorem left_setSend (hn : Apart d) (ht : d.send? s.number = some t) :
    S.left (d.setSend s) + S.rest t = S.left d + S.rest s := by
  obtain ⟨pre, post, hsplit, hsends⟩ := setSend_split hn ht
  rw [left_of_split hsplit, left_of_split hsends, add_comm, add_left_comm]
  ac_rfl

theorem outcomes?_known {attempts : List HookAttempt} {known : List Delivery}
    (h : outcomes? attempts = some known) (f : HookAttempt → Delivery) :
    attempts.map (fun a => a.outcome.getD (f a)) = known ∧ ∀ a ∈ attempts, a.outcome.isSome := by
  induction attempts generalizing known with
  | nil =>
    cases h
    exact ⟨rfl, List.forall_mem_nil _⟩
  | cons a attempts ih =>
    simp only [outcomes?, List.mapM_cons, Option.bind_eq_bind, Option.bind_eq_some_iff,
      Option.pure_def, Option.some.injEq] at h
    obtain ⟨x, hx, rest, hrest, rfl⟩ := h
    obtain ⟨hmap, hall⟩ := ih hrest
    simp only [List.map_cons, hx, Option.getD_some, hmap, List.forall_mem_cons, Option.isSome_some,
      true_and]
    exact hall

/-- Of a send that is about to end nothing but its end is to be said. -/
theorem rest_concluded {result : Sent} (h : concluded? s.phase = some result) :
    S.rest s = [.sent s.number result] := by
  obtain ⟨number, n, phase⟩ := s
  unfold concluded? at h
  dsimp only at h
  split at h
  · rename_i before b attempts since
    obtain ⟨known, hk, rfl⟩ := Option.map_eq_some_iff.mp h
    obtain ⟨hmap, hall⟩ := outcomes?_known hk fun a => S.outcome n (.hook a.hook)
    have hnone : attempts.flatMap (fun a => S.awaited number n (.hook a.hook) a.outcome) = [] := by
      refine List.flatMap_eq_nil_iff.mpr fun a ha => ?_
      obtain ⟨x, hx⟩ := Option.isSome_iff_exists.mp (hall a ha)
      rw [hx]
      rfl
    simp only [Setting.rest, hnone, Setting.verdict, hmap, Option.getD_some]
    rfl
  · cases h

theorem proceed_left (hn : Apart d) (ht : d.send? s.number = some t) :
    (said (proceed d s).2 : Multiset Output) + S.left (proceed d s).1 + S.rest t =
      S.left d + S.rest s := by
  cases hc : concluded? s.phase with
  | some result =>
    obtain ⟨hsends, -, -, ho⟩ := proceed_of_some (d := d) hc
    have hleft : S.left (proceed d s).1 = S.left (d.dropSend s.number) := by
      rw [Setting.left, hsends, Setting.left]
    rw [ho, hleft, add_assoc, left_dropSend hn ht, rest_concluded hc, add_comm]
    rfl
  | none =>
    rw [proceed_of_none hc]
    exact (congrArg (· + _) (zero_add _)).trans (left_setSend hn ht)

/-- What a delivery says as it begins and what it has still to say. -/
theorem launch_said (hb : d.broker = S.broker) (k : Nat) (n : Encoded) {t : Target}
    (ho : ∀ h, t = .hook h → (d.registry.backend h).closed = false) :
    said (launch d k n t).2 ++ S.awaited k n t (launch d k n t).1 =
        S.opening k n t ++ S.closing k n t ∧
      (launch d k n t).1.getD (S.outcome n t) = S.outcome n t := by
  cases t with
  | broker =>
    cases hc : S.broker.closed with
    | true =>
      have hout : S.outcome n .broker = .error .closed := by
        simp [Setting.outcome, World.outcome, hc]
      have hl : launch d k n .broker = (some (.error .closed),
          [.attempted k .broker n] ++ ended k .broker n.event (.error .closed)) := by
        simp [launch, beginBroker, hb, hc]
      rw [hl, said_append, said_ended]
      simp [Setting.awaited, Setting.opening, Setting.closing, hout, hc, said, Output.bare?]
    | false =>
      have hl : launch d k n .broker =
          (none, [.attempted k .broker n, .published k (S.broker.message n)]) := by
        simp [launch, beginBroker, hb, hc]
      rw [hl]
      simp [Setting.awaited, Setting.opening, hc, said, Output.bare?]
  | hook h =>
    have hopen : (d.registry.backend h).request n = .ok (h.endpoints.request n) := by
      rw [WebhookBackend.request, if_neg (by simp [ho h rfl])]
      rfl
    cases hr : h.endpoints.request n with
    | none =>
      have hout : S.outcome n (.hook h) = .ok () := by
        simp [Setting.outcome, World.outcome, hr]
      have hl : launch d k n (.hook h) =
          (some (.ok ()), [.attempted k (.hook h) n] ++ ended k (.hook h) n.event (.ok ())) := by
        simp [launch, beginHook, hopen, hr]
      rw [hl, said_append, said_ended]
      simp [Setting.awaited, Setting.opening, Setting.closing, hout, hr, said, Output.bare?]
    | some r =>
      have hl : launch d k n (.hook h) =
          (none, [.attempted k (.hook h) n, .requested k h.number r]) := by
        simp [launch, beginHook, hopen, hr]
      rw [hl]
      simp [Setting.awaited, Setting.opening, hr, said, Output.bare?]

/-- Where deliveries go to one by one is all that matters of them. -/
theorem delivery_congr {hooks hooks' : List Hook}
    (h : hooks.map (·.endpoints) = hooks'.map (·.endpoints)) (before : List BackendFailure) :
    S.delivery k n before hooks = S.delivery k n before hooks' := by
  have hplain : ∀ hs : List Hook, S.delivery k n before hs =
      S.delivery k n before ((hs.map (·.endpoints)).map (⟨0, ·⟩)) := by
    intro hs
    simp only [Setting.delivery, Setting.verdict, targets, List.flatMap_cons, List.flatMap_map,
      List.map_map, Function.comp_def]
    rfl
  rw [hplain, h, ← hplain]

/-- What is said as the deliveries of a send begin, and what is then still to be said. -/
theorem launches_said (hb : d.broker = S.broker) (k : Nat) (n : Encoded)
    (hopen : ∀ h ∈ hooks, (d.registry.backend h).closed = false) (before : List BackendFailure)
    (since : Duration) :
    (said (launches d k n hooks) : Multiset Output) +
        S.rest ⟨k, n, .delivering before (launch d k n .broker).1
          (hooks.map fun h => ⟨h, (launch d k n (.hook h)).1⟩) since⟩ =
      S.delivery k n before hooks := by
  have hlaunch : ∀ t ∈ targets hooks,
      said (launch d k n t).2 ++ S.awaited k n t (launch d k n t).1 =
          S.opening k n t ++ S.closing k n t ∧
        (launch d k n t).1.getD (S.outcome n t) = S.outcome n t := by
    intro t ht
    refine launch_said hb k n fun h he => hopen h ?_
    simpa [targets, he] using ht
  have hsaid : said (launches d k n hooks) =
      (targets hooks).flatMap fun t => said (launch d k n t).2 := List.filterMap_flatMap
  have hverdict : S.verdict n before (launch d k n .broker).1
      (hooks.map fun h => ⟨h, (launch d k n (.hook h)).1⟩) =
        S.verdict n before none (hooks.map (⟨·, none⟩)) := by
    have hhooks : hooks.map (fun h => (launch d k n (.hook h)).1.getD (S.outcome n (.hook h))) =
        hooks.map fun h => S.outcome n (.hook h) :=
      List.map_congr_left fun h hm => (hlaunch (.hook h) (by simp [targets, hm])).2
    simp only [Setting.verdict, (hlaunch .broker List.mem_cons_self).2, List.map_map,
      Function.comp_def, hhooks, Option.getD_none]
  have hawaited : S.rest ⟨k, n, .delivering before (launch d k n .broker).1
      (hooks.map fun h => ⟨h, (launch d k n (.hook h)).1⟩) since⟩ =
        (targets hooks).flatMap (fun t => S.awaited k n t (launch d k n t).1) ++
          [.sent k (S.verdict n before none (hooks.map (⟨·, none⟩)))] := by
    simp only [Setting.rest, hverdict, targets, List.flatMap_cons, List.flatMap_map]
  rw [hsaid, hawaited, ← Multiset.coe_add, ← add_assoc, Setting.delivery, ← Multiset.coe_add,
    Multiset.coe_add, Multiset.coe_eq_coe.mpr (List.flatMap_append_perm ..),
    List.flatMap_congr fun t ht => (hlaunch t ht).1]

theorem deliver_left (hn : Apart d) (hs : d.send? s.number = some t) (hb : d.broker = S.broker)
    (hopen : ∀ h ∈ hooks, (d.registry.backend h).closed = false) (before : List BackendFailure) :
    (said (deliver d s before hooks).2 : Multiset Output) + S.left (deliver d s before hooks).1 +
        S.rest t =
      S.left d + S.delivery s.number s.notification before hooks := by
  let phase := Phase.delivering before (launch d s.number s.notification .broker).1
    (hooks.map fun h => ⟨h, (launch d s.number s.notification (.hook h)).1⟩) d.registry.now
  have hproceed := proceed_left (S := S) (s := { s with phase }) hn hs
  have hlaunches := launches_said hb s.number (n := s.notification) hopen before d.registry.now
  rw [deliver_eq, said_append, ← Multiset.coe_add, ← hlaunches, add_left_comm, ← hproceed]
  ac_rfl

/-- A send whose call returns says what it has to, when the call comes to what calls for its
application come to. -/
theorem onResolved_left (hn : Apart d) (hs : d.send? s.number = some s)
    (hp : s.phase = .resolving) (hb : d.broker = S.broker)
    (hopen : S.shut = false → ∀ h, (d.registry.backend h).closed = false)
    (hr : ComesTo S.settled S.shut s.notification.applicationId result) :
    (said (.resolved s.number result :: (onResolved d s result).2) : Multiset Output) +
      S.left (onResolved d s result).1 = S.left d := by
  have hrest : S.rest s = S.script s.number s.notification := by
    rw [Setting.rest, hp]
  match result with
  | .ok e =>
    obtain ⟨ho, rows, hl, hbuilt⟩ := hr
    have hdeliver := deliver_left hn hs hb (fun h (_ : h ∈ e.hooks) => hopen ho h)
      (e.failures.map ofConfiguration)
    have hscript : S.script s.number s.notification =
        S.delivery s.number s.notification (e.failures.map ofConfiguration) e.hooks := by
      rw [Setting.script, if_neg (by simp [ho]), hl, hbuilt.failures]
      refine delivery_congr ?_ _
      rw [hbuilt.hooks, List.map_map]
      exact List.map_id' _
    rw [hrest, hscript] at hdeliver
    exact add_right_cancel hdeliver
  | .error (.storage x) =>
    obtain ⟨ho, hl⟩ := hr
    have hdeliver := deliver_left (S := S) (d := { d with stats :=
      { d.stats with storageFailures := d.stats.storageFailures + 1 } }) hn hs hb
      (List.forall_mem_nil _) [ofStorage x]
    have hscript : (S.script s.number s.notification : Multiset Output) =
        ([.resolved s.number (.error (.storage x))] : List Output) +
          S.delivery s.number s.notification [ofStorage x] [] := by
      rw [Setting.script, if_neg (by simp [ho]), hl]
      rfl
    rw [hrest, hscript, add_left_comm, ← add_assoc, ← add_assoc] at hdeliver
    exact add_right_cancel hdeliver
  | .error .closed =>
    have ho : S.shut = true := hr
    have hscript : S.script s.number s.notification = [.sent s.number (.error .closed)] := by
      rw [Setting.script, if_pos ho]
    rw [← left_dropSend (S := S) hn hs, hrest, hscript, add_comm]
    rfl

theorem said_passed (h : returns outs = []) : said (outs.map pass) = [] := by
  refine List.filterMap_eq_nil_iff.mpr fun x hx => ?_
  obtain ⟨out, hm, rfl⟩ := List.mem_map.mp hx
  cases out with
  | returned k result =>
    have hk := mem_returns_of_returned hm
    rw [h] at hk
    cases hk
  | _ => rfl

theorem follow_left {own : List Nat} (h : Attentive own d outs) (hown : ∀ k ∈ returns outs, k ∈ own)
    (hb : d.broker = S.broker)
    (hopen : S.shut = false → ∀ h, (d.registry.backend h).closed = false)
    (hr : ∀ k result, .returned k result ∈ outs → ∀ s, d.send? k = some s →
      ComesTo S.settled S.shut s.notification.applicationId result) :
    (said (follow d outs).2 : Multiset Output) + S.left (follow d outs).1 = S.left d := by
  have hfollowed := follow_followed h.one d
  generalize follow d outs = x at hfollowed
  cases hfollowed with
  | passed nobody =>
    have hnone : returns outs = [] := by
      refine List.eq_nil_iff_forall_not_mem.mpr fun k hk => ?_
      exact h.awaited k hk (hown k hk) (nobody k hk)
    rw [said_passed hnone]
    exact zero_add _
  | resolved s result pre post waits split before after =>
    have hm : .returned s.number result ∈ outs := by simp [split]
    have hresolved := onResolved_left h.apart waits
      (h.waiting _ (mem_returns_of_returned hm) s waits) hb hopen (hr _ _ hm s waits)
    rw [said_append, said_append, said_passed before, said_passed after, List.append_nil]
    exact hresolved

/-- What an answer says of a delivery was to be said. -/
theorem answered_left (hn : Apart d) (hs : d.send? s.number = some s) {t : Target} {r : Delivery}
    (phase : Phase)
    (hrest : (S.rest s : Multiset Output) =
      (ended s.number t.bare s.notification.event r : Multiset Output) + S.rest { s with phase }) :
    (said (ended s.number t s.notification.event r ++ (proceed d { s with phase }).2) :
        Multiset Output) + S.left (proceed d { s with phase }).1 = S.left d := by
  have hproceed := proceed_left (S := S) (s := { s with phase }) hn hs
  have hsaid : (said (proceed d { s with phase }).2 : Multiset Output) +
      S.left (proceed d { s with phase }).1 +
        (ended s.number t.bare s.notification.event r : Multiset Output) = S.left d := by
    rw [hrest, ← add_assoc] at hproceed
    exact add_right_cancel hproceed
  rw [said_append, said_ended, ← hsaid, ← Multiset.coe_add]
  ac_rfl

theorem brokerAnswer_left (hS : S.Holds d) (hn : Apart d) (hs : d.send? k = some s) :
    (said (brokerAnswer d k (S.world.publish (d.broker.message s.notification))).2 :
        Multiset Output) +
      S.left (brokerAnswer d k (S.world.publish (d.broker.message s.notification))).1 =
        S.left d := by
  obtain rfl := send?_number hs
  unfold brokerAnswer
  simp only [hs]
  split
  · rename_i before hooks since hp
    have hbroker := (hS.underway s (mem_of_send? hs).1).broker _ _ _ hp
    have hout : S.outcome s.notification .broker =
        d.broker.settle s.notification.topic
          (S.world.publish (d.broker.message s.notification)) := by
      simp [Setting.outcome, World.outcome, hbroker, hS.broker]
    refine answered_left hn hs _ ?_
    simp only [Setting.rest, hp, Setting.awaited, Setting.closing, Setting.verdict, hout,
      Option.getD_none, Option.getD_some, List.nil_append, List.append_assoc, Multiset.coe_add]
  · exact zero_add _

theorem hookAnswer_left (hn : Apart d) (hs : d.send? k = some s)
    (hd : ∀ before b attempts since, s.phase = .delivering before b attempts since →
      (attempts.map (·.hook.number)).Nodup)
    {place hook : Nat} {r : Webhook.Request} (hr : s.asked? place = some (hook, r)) :
    (said (hookAnswer d k hook (S.world.post r)).2 : Multiset Output) +
      S.left (hookAnswer d k hook (S.world.post r)).1 = S.left d := by
  obtain rfl := send?_number hs
  unfold hookAnswer
  simp only [hs]
  split
  · rename_i before b attempts since hp
    rw [Send.asked?, hp] at hr
    obtain ⟨c, hc, hr⟩ := Option.bind_eq_some_iff.mp hr
    obtain ⟨r', hreq, he⟩ := Option.map_eq_some_iff.mp hr
    cases he
    split
    · rename_i a ha
      obtain ⟨pre, post, hsplit, hrecord⟩ := record_split (hd _ _ _ _ hp) ha
        (WebhookBackend.settle r.url (S.world.post r))
      rw [find?_attempt (hd _ _ _ _ hp) (List.mem_of_getElem? hc),
        Option.ite_none_right_eq_some] at ha
      obtain ⟨hnone, ⟨⟩⟩ := ha
      split
      · rename_i url hurl
        have hu : r.url = url := by
          rw [Webhook.Endpoints.request, hurl] at hreq
          cases hreq
          rfl
        have hout : S.outcome s.notification (.hook c.hook) =
            WebhookBackend.settle url (S.world.post r) := by
          simp only [Setting.outcome, World.outcome, hreq, hu]
        refine answered_left hn hs _ ?_
        rw [hu] at hrecord
        rw [hrecord]
        simp only [Setting.rest, hp, hsplit, Setting.verdict, List.map_append, List.map_cons,
          List.flatMap_append, List.flatMap_cons, Option.isNone_iff_eq_none.mp hnone,
          Setting.awaited, Setting.closing, hout, Option.getD_none, Option.getD_some,
          ← Multiset.coe_add, Multiset.coe_nil, zero_add]
        ac_rfl
      · exact zero_add _
    · exact zero_add _
  · exact zero_add _

theorem proceed_underway (h : ∀ u ∈ d.sends, S.Underway u)
    (hs : concluded? s.phase = none → S.Underway s) : ∀ u ∈ (proceed d s).1.sends, S.Underway u := by
  intro u hu
  cases hc : concluded? s.phase with
  | some result =>
    rw [(proceed_of_some hc).1] at hu
    exact h u (List.mem_filter.mp hu).1
  | none =>
    rw [proceed_of_none hc] at hu
    obtain ⟨t, ht, rfl⟩ := List.mem_map.mp hu
    split
    · exact hs hc
    · exact h t ht

/-- A delivery that does not end as it begins has something to wait for. -/
theorem launch_underway (hb : d.broker = S.broker) {k : Nat} {t : Target}
    (hnone : (launch d k n t).1 = none) :
    match t with
    | .broker => S.broker.closed = false
    | .hook h => (h.endpoints.request n).isSome := by
  cases t with
  | broker =>
    simp only [launch, beginBroker, hb] at hnone
    split at hnone
    · cases hnone
    · simp_all
  | hook h =>
    simp only [launch, beginHook, WebhookBackend.request] at hnone
    by_cases hc : (d.registry.backend h).closed
    · simp [hc] at hnone
    · simp only [hc, Bool.false_eq_true, ↓reduceIte] at hnone
      cases hr : (d.registry.backend h).endpoints.request n with
      | none => simp [hr] at hnone
      | some r => exact Option.isSome_iff_exists.mpr ⟨r, hr⟩

theorem deliver_underway (h : ∀ u ∈ d.sends, S.Underway u) (hb : d.broker = S.broker) (s : Send)
    (before : List BackendFailure) (hooks : List Hook) :
    ∀ u ∈ (deliver d s before hooks).1.sends, S.Underway u := by
  rw [deliver_eq]
  refine proceed_underway h fun hc => ⟨hc, ?_, ?_⟩
  · intro before' hooks' since' hp
    injection hp with _ hbroker
    exact launch_underway hb hbroker
  · intro before' b' hooks' since' hp a ha hnone
    injection hp with _ _ hhooks
    rw [← hhooks] at ha
    obtain ⟨g, -, rfl⟩ := List.mem_map.mp ha
    exact launch_underway hb hnone

theorem onResolved_underway (h : ∀ u ∈ d.sends, S.Underway u) (hb : d.broker = S.broker)
    (s : Send) (result : Resolved) : ∀ u ∈ (onResolved d s result).1.sends, S.Underway u := by
  match result with
  | .ok e => exact deliver_underway h hb s _ _
  | .error (.storage x) =>
    exact deliver_underway (d := { d with stats :=
      { d.stats with storageFailures := d.stats.storageFailures + 1 } }) h hb s _ _
  | .error .closed => exact fun u hu => h u (List.mem_filter.mp hu).1

theorem follow_underway (h : ∀ u ∈ d.sends, S.Underway u) (hb : d.broker = S.broker)
    (outs : List Registry.Output) : ∀ u ∈ (follow d outs).1.sends, S.Underway u := by
  refine (collect_keeps (f := onOutput) (o := [])
    (P := fun d _ => (∀ u ∈ d.sends, S.Underway u) ∧ d.broker = S.broker) ?_ ⟨h, hb⟩ outs).1
  rintro d _ out ⟨h, hb⟩
  cases out with
  | returned k result =>
    simp only [onOutput]
    split
    · exact ⟨onResolved_underway h hb _ result, (onResolved_touches d _ result).broker.trans hb⟩
    · exact ⟨h, hb⟩
  | _ => exact ⟨h, hb⟩

theorem registryStep_underway (h : ∀ u ∈ d.sends, S.Underway u) (hb : d.broker = S.broker)
    (t : Registry.Step) : ∀ u ∈ (registryStep d t).1.sends, S.Underway u :=
  follow_underway (d := { d with registry := (Registry.step d.registry t).1 }) h hb _

theorem Setting.Underway.told {p q : Phase} {t : Target} {x : Delivery}
    (h : S.Underway { s with phase := p }) (ht : Told p t x q) (hq : concluded? q = none) :
    S.Underway { s with phase := q } := by
  cases ht with
  | broker =>
    refine ⟨hq, (by rintro _ _ _ ⟨⟩), fun before b hooks since hp => ?_⟩
    injection hp with _ _ hhooks
    exact hhooks ▸ h.hooks _ _ _ _ rfl
  | hook =>
    refine ⟨hq, fun before hooks since hp => ?_, fun before b hooks since hp a ha hnone => ?_⟩
    · cases hp
      exact h.broker _ _ _ rfl
    · injection hp with _ _ hhooks
      rw [← hhooks] at ha
      obtain ⟨c, hc, rfl⟩ := List.mem_map.mp ha
      unfold record at hnone ⊢
      split at hnone
      · cases hnone
      · rename_i hne
        rw [if_neg hne]
        exact h.hooks _ _ _ _ rfl c hc hnone

theorem Answered.underway {x : Outcome} (h : Answered k d x) (hd : ∀ u ∈ d.sends, S.Underway u) :
    ∀ u ∈ x.1.sends, S.Underway u := by
  cases h with
  | dropped => exact hd
  | taken found told => exact proceed_underway hd ((hd _ (mem_of_send? found).1).told told)

end Uplink.Dispatch
