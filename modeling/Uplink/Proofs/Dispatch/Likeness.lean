import Uplink.Proofs.Dispatch.Interleaving
import Uplink.Proofs.Registry.Likeness

namespace Uplink.Dispatch

open Backend Broker Notification Registry Time

variable {d e : Dispatcher} {k : Nat} {n : Encoded} {o o' : List Output} {s t : Send} {a : Int64}
  {own : List Nat} {f : Nat → Nat} {x y : Outcome} {outs outs' : List Registry.Output}

def HookAttempt.bare (x : HookAttempt) : HookAttempt := { x with hook := x.hook.bare }

def Phase.bare : Phase → Phase
  | .resolving => .resolving
  | .delivering before broker hooks since =>
    .delivering before broker (hooks.map HookAttempt.bare) since

def Send.bare (s : Send) : Send := { s with phase := s.phase.bare }

/-- An output without the numbers of entries and webhooks. -/
def Output.bare : Output → Output
  | .loaded k e => .loaded k e.bare
  | .resolved k result => .resolved k (result.map Entry.bare)
  | .attempted k t n => .attempted k t.bare n
  | .requested k _ r => .requested k 0 r
  | .delivered k t x => .delivered k t.bare x
  | x => x

/-- Whether an output tells of an application, whose sends and calls have these numbers. -/
def Output.tells (own : List Nat) (a : Int64) : Output → Bool
  | .asked _ b => b == a
  | .loaded k _ | .resolved k _ | .attempted k _ _ | .published k _ | .requested k _ _
  | .delivered k _ _ | .sent k _ => own.contains k
  | .counted _ | .disconnected | .closed _ _ => false

/-- What is seen of an application. -/
def seen (own : List Nat) (a : Int64) (o : List Output) : List Output :=
  (o.map Output.bare).filter (Output.tells own a)

@[simp] theorem seen_append (own : List Nat) (a : Int64) (o o' : List Output) :
    seen own a (o ++ o') = seen own a o ++ seen own a o' := by
  simp [seen]

theorem tells_bare (own : List Nat) (a : Int64) (x : Output) :
    x.bare.tells own a = x.tells own a := by
  cases x <;> rfl

theorem seen_eq_nil : seen own a o = [] ↔ ∀ x ∈ o, x.tells own a = false := by
  simp [seen, List.filter_eq_nil_iff, tells_bare]

theorem seen_congr (h : o.map Output.bare = o'.map Output.bare) :
    seen own a o = seen own a o' := by
  rw [seen, seen, h]

/-- To an application, whose sends and calls have these numbers, the first dispatcher is as the
second one. -/
structure Alike (own : List Nat) (a : Int64) (f : Nat → Nat) (d e : Dispatcher) : Prop where
  closed : d.closed = e.closed
  broker : d.broker = e.broker
  registry : Registry.Alike own a f d.registry e.registry
  sends : ∀ k ∈ own, (d.send? k).map Send.bare = (e.send? k).map Send.bare

/-- Two pieces of work leave dispatchers alike, and the same is seen of both. -/
structure Agree (own : List Nat) (a : Int64) (f : Nat → Nat) (x y : Outcome) : Prop where
  alike : Alike own a f x.1 y.1
  seen : seen own a x.2 = seen own a y.2

theorem Agree.say (h : Agree own a f x y) (ho : Dispatch.seen own a o = Dispatch.seen own a o') :
    Agree own a f (x.1, o ++ x.2) (y.1, o' ++ y.2) :=
  ⟨h.alike, by rw [seen_append, seen_append, ho, h.seen]⟩

/-- A send of the application is in flight in both, come equally far, or in neither. -/
theorem Alike.send (h : Alike own a f d e) (hk : k ∈ own) :
    (d.send? k = none ∧ e.send? k = none) ∨
      ∃ s t, d.send? k = some s ∧ e.send? k = some t ∧ s.bare = t.bare := by
  have hsend := h.sends k hk
  cases hs : d.send? k with
  | none =>
    rw [hs, Option.map_none, eq_comm, Option.map_eq_none_iff] at hsend
    exact .inl ⟨rfl, hsend⟩
  | some s =>
    rw [hs, Option.map_some, eq_comm, Option.map_eq_some_iff] at hsend
    obtain ⟨t, ht, hst⟩ := hsend
    exact .inr ⟨s, t, rfl, ht, hst.symm⟩

theorem Alike.idle (h : Alike own a f d e) : Agree own a f (d, []) (e, []) := ⟨h, rfl⟩

theorem number_of_bare (h : s.bare = t.bare) : s.number = t.number := by
  have hb := congrArg Send.number h
  exact hb

theorem notification_of_bare (h : s.bare = t.bare) : s.notification = t.notification := by
  have hb := congrArg Send.notification h
  exact hb

theorem concluded?_bare (p : Phase) : concluded? p.bare = concluded? p := by
  cases p with
  | resolving => rfl
  | delivering before broker hooks since =>
    have hout : outcomes? (hooks.map HookAttempt.bare) = outcomes? hooks := by
      induction hooks with
      | nil => rfl
      | cons x hooks ih =>
        unfold outcomes? at ih ⊢
        rw [List.map_cons, List.mapM_cons, List.mapM_cons, ih]
        rfl
    cases broker with
    | none => rfl
    | some x => simp only [Phase.bare, concluded?, hout]

theorem proceed_agree (h : Alike own a f d e) (hs : s.bare = t.bare) :
    Agree own a f (proceed d s) (proceed e t) := by
  have hnumber := number_of_bare hs
  have hphase : concluded? s.phase = concluded? t.phase := by
    have hb := congrArg Send.phase hs
    rw [← concluded?_bare, ← concluded?_bare t.phase]
    exact congrArg concluded? hb
  have hclosed := (proceed_unclosing d s).closed.trans
    (h.closed.trans (proceed_unclosing e t).closed.symm)
  cases hc : concluded? s.phase with
  | some result =>
    obtain ⟨hsends, hreg, hbroker, ho⟩ := proceed_of_some (d := d) hc
    obtain ⟨hsends', hreg', hbroker', ho'⟩ := proceed_of_some (d := e) (hphase.symm.trans hc)
    refine ⟨⟨hclosed, ?_, ?_, fun k hk => ?_⟩, ?_⟩
    · rw [hbroker, hbroker', h.broker]
    · rw [hreg, hreg']
      exact h.registry
    · have hd := send?_dropSend d s.number k
      have he := send?_dropSend e t.number k
      rw [Dispatcher.send?, ← hsends] at hd
      rw [Dispatcher.send?, ← hsends'] at he
      rw [Dispatcher.send?, Dispatcher.send?, hd, he, hnumber]
      split
      · rfl
      · exact h.sends k hk
    · rw [ho, ho', hnumber]
  | none =>
    rw [proceed_of_none hc, proceed_of_none (hphase.symm.trans hc)]
    refine ⟨⟨h.closed, h.broker, h.registry, fun k hk => ?_⟩, rfl⟩
    rw [send?_setSend, send?_setSend, hnumber]
    split
    · rcases h.send hk with ⟨hu, hv⟩ | ⟨u, v, hu, hv, -⟩
      · rw [hu, hv]
        rfl
      · rw [hu, hv]
        exact congrArg some hs
    · exact h.sends k hk

/-- Where a delivery goes, and whether it may, is all that its beginning depends on. -/
theorem launch_bare (hb : d.broker = e.broker) (k : Nat) (n : Encoded) {t u : Target}
    (ht : t.bare = u.bare) (hd : ∀ h, t = .hook h → (d.registry.backend h).closed = false)
    (he : ∀ h, u = .hook h → (e.registry.backend h).closed = false) :
    (launch d k n t).1 = (launch e k n u).1 ∧
      (launch d k n t).2.map Output.bare = (launch e k n u).2.map Output.bare := by
  cases t with
  | broker =>
    cases u with
    | hook h => cases ht
    | broker =>
      simp only [launch, beginBroker, hb, and_self]
  | hook h =>
    cases u with
    | broker => cases ht
    | hook g =>
      have hgoes : h.endpoints = g.endpoints := by
        have hb := congrArg Hook.endpoints (Target.hook.inj ht)
        exact hb
      have hopen : ∀ (x : Dispatcher) (i : Hook), (x.registry.backend i).closed = false →
          (x.registry.backend i).request n = .ok (i.endpoints.request n) := by
        intro x i hx
        rw [WebhookBackend.request, if_neg (by simp [hx])]
        rfl
      simp only [launch, beginHook, hopen d h (hd h rfl), hopen e g (he g rfl), hgoes]
      cases g.endpoints.request n with
      | none =>
        refine ⟨rfl, ?_⟩
        simp only [List.map_cons, List.map_nil, Output.bare, ended, ht, Target.name]
      | some r =>
        refine ⟨rfl, ?_⟩
        simp only [List.map_cons, List.map_nil, Output.bare, ht]

theorem map_eq_of_bare {β : Type} {F G : Hook → β} {hooks hooks' : List Hook}
    (hh : hooks.map Hook.bare = hooks'.map Hook.bare)
    (hfg : ∀ h ∈ hooks, ∀ g ∈ hooks', h.bare = g.bare → F h = G g) :
    hooks.map F = hooks'.map G := by
  induction hooks generalizing hooks' with
  | nil => rw [List.map_eq_nil_iff.mp hh.symm, List.map_nil, List.map_nil]
  | cons h hooks ih =>
    cases hooks' with
    | nil => cases hh
    | cons g hooks' =>
      obtain ⟨hhead, htail⟩ := List.cons.inj hh
      rw [List.map_cons, List.map_cons, hfg h List.mem_cons_self g List.mem_cons_self hhead,
        ih htail fun i hi j hj => hfg i (List.mem_cons_of_mem _ hi) j (List.mem_cons_of_mem _ hj)]

theorem deliver_agree (h : Alike own a f d e) (hs : s.bare = t.bare)
    (known : List BackendFailure) {hooks hooks' : List Hook}
    (hh : hooks.map Hook.bare = hooks'.map Hook.bare)
    (hd : ∀ x ∈ hooks, (d.registry.backend x).closed = false)
    (he : ∀ x ∈ hooks', (e.registry.backend x).closed = false) :
    Agree own a f (deliver d s known hooks) (deliver e t known hooks') := by
  have hnumber := number_of_bare hs
  have hnote := notification_of_bare hs
  have hbroker := launch_bare h.broker s.number s.notification (t := .broker) (u := .broker) rfl
    (fun x hx => by cases hx) fun x hx => by cases hx
  have hhook : ∀ i ∈ hooks, ∀ j ∈ hooks', i.bare = j.bare → _ := fun i hi j hj hij =>
    launch_bare h.broker s.number s.notification (t := .hook i) (u := .hook j)
      (congrArg Target.hook hij) (fun x hx => by cases hx; exact hd i hi)
      fun x hx => by cases hx; exact he j hj
  have hlaunches : seen own a (launches d s.number s.notification hooks) =
      seen own a (launches e s.number s.notification hooks') := by
    refine seen_congr ?_
    have hmap := map_eq_of_bare hh fun i hi j hj hij => (hhook i hi j hj hij).2
    simp only [launches, targets, List.flatMap_cons, List.map_append, hbroker.2, List.flatMap_map,
      List.map_flatMap]
    rw [List.flatMap_def, hmap, ← List.flatMap_def]
  have hattempts : (hooks.map fun x =>
      (⟨x, (launch d s.number s.notification (.hook x)).1⟩ : HookAttempt)).map HookAttempt.bare =
      (hooks'.map fun x =>
        (⟨x, (launch e s.number s.notification (.hook x)).1⟩ : HookAttempt)).map
          HookAttempt.bare := by
    rw [List.map_map, List.map_map]
    refine map_eq_of_bare hh fun i hi j hj hij => ?_
    simp only [Function.comp_apply, HookAttempt.bare, hij, (hhook i hi j hj hij).1]
  rw [deliver_eq, deliver_eq, ← hnumber, ← hnote]
  refine (proceed_agree h ?_).say hlaunches
  simp only [Send.bare, Phase.bare, hattempts, hbroker.1, h.registry.now]

theorem onResolved_agree (h : Alike own a f d e) (hs : s.bare = t.bare) {result result' : Resolved}
    (hr : SameResult result result') (hd : ∀ x, result = .ok x → d.registry.released = [])
    (he : ∀ x, result' = .ok x → e.registry.released = []) :
    Agree own a f (onResolved d s result) (onResolved e t result') := by
  cases hr with
  | ok x y same =>
    have hfailures : x.failures = y.failures := by
      have hb := congrArg Entry.failures same
      exact hb
    have hhooks : x.hooks.map Hook.bare = y.hooks.map Hook.bare := by
      have hb := congrArg Entry.hooks same
      exact hb
    simp only [onResolved, hfailures]
    refine deliver_agree h hs _ hhooks (fun i _ => ?_) fun i _ => ?_
    · simp [Registry.backend, hd x rfl]
    · simp [Registry.backend, he y rfl]
  | error z =>
    cases z with
    | storage z =>
      have hcounted : Alike own a f
          { d with stats := { d.stats with storageFailures := d.stats.storageFailures + 1 } }
          { e with stats := { e.stats with storageFailures := e.stats.storageFailures + 1 } } :=
        ⟨h.closed, h.broker, h.registry, h.sends⟩
      exact deliver_agree hcounted hs [ofStorage z] rfl (List.forall_mem_nil _)
        (List.forall_mem_nil _)
    | closed =>
      refine ⟨⟨h.closed, h.broker, h.registry, fun k hk => ?_⟩, ?_⟩
      · simp only [onResolved]
        rw [send?_dropSend, send?_dropSend, number_of_bare hs]
        split
        · rfl
        · exact h.sends k hk
      · simp only [onResolved, number_of_bare hs]

theorem onOutput_agree (h : Alike own a f d e) {out out' : Registry.Output}
    (ho : out.Like own out')
    (hd : ∀ k x, out = .returned k (.ok x) → d.registry.released = [])
    (he : ∀ k x, out' = .returned k (.ok x) → e.registry.released = []) :
    Agree own a f (onOutput d out) (onOutput e out') := by
  cases ho with
  | counted c c' => exact ⟨h, rfl⟩
  | asked k b => exact ⟨h, rfl⟩
  | loaded k x y same =>
    refine ⟨h, seen_congr ?_⟩
    simp only [onOutput, List.map_cons, List.map_nil, Output.bare, same]
  | returned k mine result result' same =>
    have hresult : result.map Entry.bare = result'.map Entry.bare := by
      cases same with
      | ok x y same => exact congrArg Except.ok same
      | error z => rfl
    have hsaid : seen own a [.resolved k result] = seen own a [.resolved k result'] :=
      seen_congr (by simp only [List.map_cons, List.map_nil, Output.bare, hresult])
    simp only [onOutput]
    rcases h.send mine with ⟨hs, ht⟩ | ⟨s, t, hs, ht, hst⟩
    · rw [hs, ht]
      exact ⟨h, hsaid⟩
    · rw [hs, ht]
      exact (onResolved_agree h hst same (fun x hx => hd k x (by rw [hx]))
        fun x hx => he k x (by rw [hx])).say hsaid

theorem follow_agree (h : Alike own a f d e) (ho : AlikeSaid own outs outs')
    (hd : ∀ k x, .returned k (.ok x) ∈ outs → d.registry.released = [])
    (he : ∀ k x, .returned k (.ok x) ∈ outs' → e.registry.released = []) :
    Agree own a f (follow d outs) (follow e outs') := by
  induction ho generalizing d e with
  | nil => exact h.idle
  | @cons out out' outs outs' hout _ ih =>
    have hfirst := onOutput_agree h hout
      (fun k x hx => hd k x (hx ▸ List.mem_cons_self))
      fun k x hx => he k x (hx ▸ List.mem_cons_self)
    rw [follow_cons, follow_cons]
    have hrest := ih hfirst.alike
      (fun k x hm => (onOutput_heard d out).1 ▸ hd k x (List.mem_cons_of_mem _ hm))
      fun k x hm => (onOutput_heard e out').1 ▸ he k x (List.mem_cons_of_mem _ hm)
    exact hrest.say hfirst.seen

/-- Where a registry is open, no webhook is closed. -/
def Unreleased (r : Registry) : Prop := r.closed = false → r.released = []

/-- A call that returns an entry does so in an open registry. -/
theorem unreleased_of_returned {r : Registry} {t : Registry.Step} {x : Entry}
    (hr : Unreleased (Registry.step r t).1) (h : .returned k (.ok x) ∈ (Registry.step r t).2) :
    (Registry.step r t).1.released = [] := by
  refine hr (step_open ((step_evolves r t).returned k x h).1 ?_)
  rintro rfl
  exact close_unreturned r k (.ok x) h

theorem registryStep_agree {t : Registry.Step} (h : Alike own a f d e)
    (hd : Registry.Ready own a d.registry t) (he : Registry.Ready own a e.registry t)
    (ht : t.For own a) (hrd : Unreleased (Registry.step d.registry t).1)
    (hre : Unreleased (Registry.step e.registry t).1) :
    ∃ g, Agree own a g (registryStep d t) (registryStep e t) := by
  obtain ⟨g, hg, hsaid⟩ := step_alike h.registry hd he ht
  refine ⟨g, ?_⟩
  have halike : Alike own a g { d with registry := (Registry.step d.registry t).1 }
      { e with registry := (Registry.step e.registry t).1 } :=
    ⟨h.closed, h.broker, hg, h.sends⟩
  exact follow_agree halike hsaid (fun k x hm => unreleased_of_returned hrd hm)
    fun k x hm => unreleased_of_returned hre hm

theorem begin_agree (h : Alike own a f d e) (hk : k ∈ own) (hn : n.applicationId = a)
    (hd : d.closed = false → Registry.Ready own a d.registry (.begin k a))
    (he : d.closed = false → Registry.Ready own a e.registry (.begin k a))
    (hrd : d.closed = false → Unreleased (Registry.step d.registry (.begin k a)).1)
    (hre : d.closed = false → Unreleased (Registry.step e.registry (.begin k a)).1) :
    ∃ g, Agree own a g (begin d k n) (begin e k n) := by
  cases hc : d.closed with
  | true =>
    simp only [begin, hc, h.closed.symm.trans hc, ↓reduceIte]
    exact ⟨f, h, rfl⟩
  | false =>
    rw [begin_entered hc, begin_entered (h.closed.symm.trans hc), hn]
    have hentered : Alike own a f (entered d k n) (entered e k n) := by
      refine ⟨h.closed, h.broker, h.registry, fun j hj => ?_⟩
      rw [send?_entered, send?_entered, Option.map_or, Option.map_or, h.sends j hj]
    obtain ⟨g, hg⟩ := registryStep_agree hentered (hd hc) (he hc) ⟨hk, rfl⟩ (hrd hc) (hre hc)
    have hcounted : ∀ c, seen own a [.counted c] = [] := fun _ => rfl
    exact ⟨g, hg.say ((hcounted _).trans (hcounted _).symm)⟩

/-- Sends come equally far wait for the same answers, of webhooks in the same places. -/
theorem phases_of_bare (h : s.bare = t.bare) :
    (s.phase = .resolving ∧ t.phase = .resolving) ∨
      ∃ before b hooks hooks' since, s.phase = .delivering before b hooks since ∧
        t.phase = .delivering before b hooks' since ∧
        hooks.map HookAttempt.bare = hooks'.map HookAttempt.bare := by
  have hphase : s.phase.bare = t.phase.bare := by
    have hb := congrArg Send.phase h
    exact hb
  cases hp : s.phase with
  | resolving =>
    cases hq : t.phase with
    | resolving => exact .inl ⟨rfl, rfl⟩
    | delivering =>
      rw [hp, hq] at hphase
      cases hphase
  | delivering before b hooks since =>
    cases hq : t.phase with
    | resolving =>
      rw [hp, hq] at hphase
      cases hphase
    | delivering before' b' hooks' since' =>
      rw [hp, hq, Phase.bare, Phase.bare, Phase.delivering.injEq] at hphase
      obtain ⟨rfl, rfl, hhooks, rfl⟩ := hphase
      exact .inr ⟨before, b, hooks, hooks', since, rfl, rfl, hhooks⟩

theorem brokerAnswer_agree (h : Alike own a f d e) (hk : k ∈ own) (x : Answer) :
    Agree own a f (brokerAnswer d k x) (brokerAnswer e k x) := by
  unfold brokerAnswer
  rcases h.send hk with ⟨hs, ht⟩ | ⟨s, t, hs, ht, hst⟩
  · rw [hs, ht]
    exact h.idle
  · rw [hs, ht]
    dsimp only
    rcases phases_of_bare hst with ⟨hp, hq⟩ | ⟨before, b, hooks, hooks', since, hp, hq, hhooks⟩
    · rw [hp, hq]
      exact h.idle
    · rw [hp, hq]
      cases b with
      | some r => exact h.idle
      | none =>
        dsimp only
        rw [h.broker, notification_of_bare hst, number_of_bare hst]
        refine (proceed_agree h ?_).say rfl
        simp only [Send.bare, Phase.bare, hhooks]

/-- The outcome of a webhook is recorded in its place. -/
theorem record_at {hooks : List HookAttempt} {x : HookAttempt} {i : Nat}
    (hd : (hooks.map (·.hook.number)).Nodup) (hi : hooks[i]? = some x) (hx : x.outcome.isNone)
    (r : Delivery) :
    hooks.map (record x.hook.number r) = hooks.set i { x with outcome := some r } := by
  refine List.ext_getElem? fun j => ?_
  rw [List.getElem?_map, List.getElem?_set]
  have hlt := (List.getElem?_eq_some_iff.mp hi).1
  by_cases hij : i = j
  · subst hij
    rw [if_pos rfl, if_pos hlt, hi, Option.map_some, record, if_pos ⟨rfl, hx⟩]
  · rw [if_neg hij]
    cases hj : hooks[j]? with
    | none => rfl
    | some y =>
      rw [Option.map_some, record, if_neg]
      rintro ⟨hnumber, -⟩
      refine hij ((List.getElem?_inj (by simpa using hlt) hd).mp ?_)
      rw [List.getElem?_map, List.getElem?_map, hi, hj, Option.map_some, Option.map_some, hnumber]

/-- The answer of a webhook that was asked something ends its delivery, the first time it comes. -/
theorem hookAnswer_at {before : List BackendFailure} {b : Option Delivery} {i : Nat}
    {hooks : List HookAttempt} {since : Duration} {x : HookAttempt} {q : Webhook.Request}
    (hs : d.send? k = some s) (hp : s.phase = .delivering before b hooks since)
    (hd : (hooks.map (·.hook.number)).Nodup) (hi : hooks[i]? = some x)
    (hq : x.hook.endpoints.request s.notification = some q)
    (r : Except Webhook.RequestError Nat) :
    hookAnswer d k x.hook.number r =
      if x.outcome.isNone then
        let delivery := WebhookBackend.settle q.url r
        let phase := .delivering before b (hooks.set i { x with outcome := some delivery }) since
        let y := proceed d { s with phase }
        (y.1, ended k (.hook x.hook) s.notification.event delivery ++ y.2)
      else (d, []) := by
  have hurl : x.hook.endpoints.url? s.notification.event = some q.url := by
    unfold Webhook.Endpoints.request at hq
    cases hu : x.hook.endpoints.url? s.notification.event with
    | none =>
      rw [hu] at hq
      cases hq
    | some url =>
      rw [hu] at hq
      cases hq
      rfl
  simp only [hookAnswer, hs, hp, find?_attempt hd (List.mem_of_getElem? hi)]
  by_cases hx : x.outcome.isNone
  · simp only [hx, ↓reduceIte, hurl, record_at hd hi hx]
  · simp only [hx, Bool.false_eq_true, ↓reduceIte]

theorem asked?_bare (s : Send) (place : Nat) :
    (s.bare.asked? place).map Prod.snd = (s.asked? place).map Prod.snd := by
  obtain ⟨number, n, phase⟩ := s
  cases phase with
  | resolving => rfl
  | delivering before b hooks since =>
    simp only [Send.asked?, Send.bare, Phase.bare, List.getElem?_map]
    cases hooks[place]? with
    | none => rfl
    | some x =>
      simp only [Option.map_some, Option.bind_some, Option.map_map]
      rfl

theorem asked?_eq_some {place hook : Nat} {q : Webhook.Request}
    (h : s.asked? place = some (hook, q)) :
    ∃ before b hooks since x, s.phase = .delivering before b hooks since ∧
      hooks[place]? = some x ∧ x.hook.number = hook ∧
      x.hook.endpoints.request s.notification = some q := by
  unfold Send.asked? at h
  split at h
  · rename_i before b hooks since hp
    obtain ⟨x, hx, hr⟩ := Option.bind_eq_some_iff.mp h
    obtain ⟨q', hq, he⟩ := Option.map_eq_some_iff.mp hr
    cases he
    exact ⟨before, b, hooks, since, x, hp, hx, rfl, hq⟩
  · cases h

/-- No send in flight delivers to two webhooks of one number. -/
def HooksApart (d : Dispatcher) : Prop :=
  ∀ k s before b hooks since, d.send? k = some s → s.phase = .delivering before b hooks since →
    (hooks.map (·.hook.number)).Nodup

/-- Webhooks in the same places, which are asked the same, give the same answer. -/
theorem hookAnswer_agree (h : Alike own a f d e) (hd : HooksApart d) (he : HooksApart e)
    (hs : d.send? k = some s) (ht : e.send? k = some t) (hst : s.bare = t.bare)
    {place hook hook' : Nat} {q : Webhook.Request} (hq : s.asked? place = some (hook, q))
    (hq' : t.asked? place = some (hook', q)) (r : Except Webhook.RequestError Nat) :
    Agree own a f (hookAnswer d k hook r) (hookAnswer e k hook' r) := by
  obtain ⟨before, b, hooks, since, x, hp, hx, rfl, hr⟩ := asked?_eq_some hq
  obtain ⟨_, _, _, _, y, hp', hy, rfl, hr'⟩ := asked?_eq_some hq'
  have hphases := phases_of_bare hst
  rw [hp, hp'] at hphases
  obtain ⟨hphase, -⟩ | ⟨_, _, _, _, _, ⟨⟩, ⟨⟩, hhooks⟩ := hphases
  · cases hphase
  have hplace := congrArg (·[place]?) hhooks
  simp only [List.getElem?_map, hx, hy, Option.map_some, Option.some.injEq] at hplace
  obtain ⟨hhook, hout⟩ := HookAttempt.mk.inj hplace
  rw [hookAnswer_at hs hp (hd _ _ _ _ _ _ hs hp) hx hr,
    hookAnswer_at ht hp' (he _ _ _ _ _ _ ht hp') hy hr', ← hout]
  split
  · refine (proceed_agree h ?_).say (seen_congr ?_)
    · simp only [Send.bare, Phase.bare, List.map_set, hhooks, HookAttempt.bare, hhook]
      rw [number_of_bare hst, notification_of_bare hst]
    · have ht : (Target.hook x.hook).bare = (Target.hook y.hook).bare :=
        congrArg Target.hook hhook
      simp only [ended, List.map_cons, List.map_nil, Output.bare, Target.name, ht,
        notification_of_bare hst]
  · exact h.idle

theorem beginClose_agree (h : Alike own a f d e)
    (hd : d.closed = false → Registry.Ready own a d.registry .close)
    (he : d.closed = false → Registry.Ready own a e.registry .close) (c : Nat) :
    ∃ g, Agree own a g (beginClose d c) (beginClose e c) := by
  unfold beginClose
  cases hc : d.closed with
  | true =>
    simp only [h.closed.symm.trans hc, ↓reduceIte]
    exact ⟨f, h, rfl⟩
  | false =>
    have hclosing : Alike own a f { d with closed := true } { e with closed := true } :=
      ⟨rfl, h.broker, h.registry, h.sends⟩
    have hshut : ∀ r : Registry, Unreleased (Registry.step r .close).1 := by
      intro r ho
      have hclosed : (Registry.step r .close).1.closed = true := by
        simp only [Registry.step, Registry.close]
        split
        · assumption
        · rfl
      rw [hclosed] at ho
      cases ho
    obtain ⟨g, hg⟩ := registryStep_agree hclosing (hd hc) (he hc) trivial (hshut _) (hshut _)
    refine ⟨g, ?_⟩
    simp only [h.closed.symm.trans hc, Bool.false_eq_true, ↓reduceIte, hg.alike.broker]
    split
    · exact ⟨hg.alike, by rw [seen_append, seen_append, hg.seen]⟩
    · refine ⟨⟨hg.alike.closed, rfl, hg.alike.registry, hg.alike.sends⟩, ?_⟩
      rw [seen_append, seen_append, hg.seen]

theorem closeAnswer_agree (h : Alike own a f d e) (x : Answer) :
    Agree own a f (closeAnswer d x) (closeAnswer e x) := by
  unfold closeAnswer
  cases d.closing <;> cases e.closing <;> exact ⟨⟨h.closed, h.broker, h.registry, h.sends⟩, rfl⟩

/-- An act for an application, whose sends and calls have these numbers, or for all. -/
def Act.For (own : List Nat) (a : Int64) : Act → Prop
  | .send k n => k ∈ own ∧ n.applicationId = a
  | .resolve k b => k ∈ own ∧ b = a
  | .load k | .wake k | .publish k | .post k _ => k ∈ own
  | .invalidate b => b = a
  | .invalidateAll | .shut | .close _ | .disconnect | .pass _ => True

/-- A dispatcher is in order for a step, as far as an application is concerned. -/
structure Fit (own : List Nat) (a : Int64) (d : Dispatcher) (s : Step) : Prop where
  ready : ∀ t, s.inner? d = some t → Registry.Ready own a d.registry t
  unreleased : Unreleased (step d s).1.registry
  hooks : HooksApart d

theorem Fit.unreleased_inner {s : Step} {t : Registry.Step} (h : Fit own a d s)
    (ht : s.inner? d = some t) : Unreleased (Registry.step d.registry t).1 := by
  rw [← (step_of_inner_some ht).1]
  exact h.unreleased

theorem registry_agree {t : Registry.Step} (h : Alike own a f d e) (hd : Fit own a d (.registry t))
    (he : Fit own a e (.registry t)) (ht : t.For own a) :
    ∃ g, Agree own a g (step d (.registry t)) (step e (.registry t)) :=
  registryStep_agree h (hd.ready t rfl) (he.ready t rfl) ht (hd.unreleased_inner rfl)
    (he.unreleased_inner rfl)

/-- An act for an application, done in both, leaves them alike, and the same is seen. -/
theorem act_agree {act : Act} {w : World} {found found' : Nat → Option Lookup}
    (h : Alike own a f d e) (ha : act.For own a) (hfound : ∀ k ∈ own, found k = found' k)
    (hd : ∀ s, w.step? found d act = some s → Fit own a d s)
    (he : ∀ s, w.step? found' e act = some s → Fit own a e s) :
    ∃ g, Agree own a g (w.act found d act) (w.act found' e act) := by
  cases act with
  | send k n =>
    obtain ⟨hk, rfl⟩ : k ∈ own ∧ n.applicationId = a := ha
    have hd := hd _ rfl
    have he := he _ rfl
    have hinner : ∀ x : Dispatcher, x.closed = false →
        (Step.begin k n).inner? x = some (.begin k n.applicationId) := by
      intro x hx
      simp [Step.inner?, hx]
    refine begin_agree h hk rfl (fun ho => hd.ready _ (hinner d ho))
      (fun ho => he.ready _ (hinner e (h.closed.symm.trans ho)))
      (fun ho => hd.unreleased_inner (hinner d ho)) fun ho =>
        he.unreleased_inner (hinner e (h.closed.symm.trans ho))
  | resolve k b => exact registry_agree h (hd _ rfl) (he _ rfl) ha
  | load k =>
    have hsame := hfound k ha
    cases hl : found' k with
    | none =>
      simp only [World.act, World.step?, hsame, hl, Option.map_none]
      exact ⟨f, h.idle⟩
    | some x =>
      have hfit := hd (.registry (.answer k x)) (by simp [World.step?, hsame, hl])
      have hfit' := he (.registry (.answer k x)) (by simp [World.step?, hl])
      simp only [World.act, World.step?, hsame, hl, Option.map_some]
      exact registry_agree h hfit hfit' ha
  | wake k => exact registry_agree h (hd _ rfl) (he _ rfl) ha
  | publish k =>
    rcases h.send ha with ⟨hs, ht⟩ | ⟨s, t, hs, ht, hst⟩
    · simp only [World.act, World.step?, hs, ht, Option.map_none]
      exact ⟨f, h.idle⟩
    · simp only [World.act, World.step?, hs, ht, Option.map_some, h.broker,
        notification_of_bare hst]
      exact ⟨f, brokerAnswer_agree h ha _⟩
  | post k place =>
    rcases h.send ha with ⟨hs, ht⟩ | ⟨s, t, hs, ht, hst⟩
    · simp only [World.act, World.step?, hs, ht, Option.bind_none, Option.map_none]
      exact ⟨f, h.idle⟩
    · have hasked : (s.asked? place).map Prod.snd = (t.asked? place).map Prod.snd := by
        rw [← asked?_bare, hst, asked?_bare]
      cases hq : s.asked? place with
      | none =>
        rw [hq, Option.map_none, eq_comm, Option.map_eq_none_iff] at hasked
        simp only [World.act, World.step?, hs, ht, Option.bind_some, hq, hasked, Option.map_none]
        exact ⟨f, h.idle⟩
      | some x =>
        rw [hq, Option.map_some, eq_comm, Option.map_eq_some_iff] at hasked
        obtain ⟨y, hq', hxy⟩ := hasked
        have hfit := hd (.hookAnswer k x.1 (w.post x.2)) (by simp [World.step?, hs, hq])
        have hfit' := he (.hookAnswer k y.1 (w.post y.2)) (by simp [World.step?, ht, hq'])
        simp only [World.act, World.step?, hs, ht, Option.bind_some, hq, hq', Option.map_some, hxy]
        refine ⟨f, hookAnswer_agree h hfit.hooks hfit'.hooks hs ht hst (q := x.2) hq ?_ _⟩
        rw [hq', ← hxy]
  | invalidate b => exact registry_agree h (hd _ rfl) (he _ rfl) ha
  | invalidateAll => exact registry_agree h (hd _ rfl) (he _ rfl) trivial
  | shut => exact registry_agree h (hd _ rfl) (he _ rfl) trivial
  | close c =>
    have hinner : ∀ x : Dispatcher, x.closed = false →
        (Step.beginClose c).inner? x = some .close := by
      intro x hx
      simp [Step.inner?, hx]
    exact beginClose_agree h (fun ho => (hd _ rfl).ready _ (hinner d ho))
      (fun ho => (he _ rfl).ready _ (hinner e (h.closed.symm.trans ho))) c
  | disconnect => exact ⟨f, closeAnswer_agree h _⟩
  | pass time => exact registry_agree h (hd _ rfl) (he _ rfl) trivial

/-- A step is for others than an application, whose sends and calls have these numbers. -/
structure Step.ForOthers (own : List Nat) (a : Int64) (d : Dispatcher) (s : Step) : Prop where
  goesOn : ∀ c, s ≠ .beginClose c
  begun : ∀ k ∈ own, s.begun? ≠ some k
  answered : ∀ k ∈ own, s.answered? ≠ some k
  inner : ∀ t, s.inner? d = some t → ¬Concerns d.registry a t ∧ ∀ time, t ≠ .pass time

theorem forOthers_registry {t : Registry.Step} (hb : ∀ k ∈ own, t.begun? ≠ some k)
    (hc : ¬Concerns d.registry a t) (hp : ∀ time, t ≠ .pass time) :
    (Step.registry t).ForOthers own a d where
  goesOn := by simp
  begun := hb
  answered := by simp [Step.answered?]
  inner u hu := by
    cases hu
    exact ⟨hc, hp⟩

/-- A step for others, made in one, leaves them alike, and nothing is seen of it. -/
theorem step_unseen {s : Step} (h : Alike own a f d e) (hs : s.ForOthers own a d)
    (hr : ∀ t, s.inner? d = some t → Registry.Ready own a d.registry t)
    (hn : ((step d s).1.registry.calls.map (·.number)).Nodup) :
    Alike own a f (step d s).1 e ∧ seen own a (step d s).2 = [] := by
  have hinner : Registry.Alike own a f (step d s).1.registry e.registry ∧
      news a own (heard (step d s).2) = [] := by
    cases hi : s.inner? d with
    | none =>
      rw [(step_of_inner_none hi).1, (step_of_inner_none hi).2]
      exact ⟨h.registry, rfl⟩
    | some t =>
      obtain ⟨hother, hpass⟩ := hs.inner t hi
      rw [(step_of_inner_some hi).1] at hn
      rw [(step_of_inner_some hi).1, (step_of_inner_some hi).2]
      exact step_unlike h.registry (hr t hi) hother hpass hn
  have hquiet : ∀ k ∈ own, ∀ result, .resolved k result ∉ (step d s).2 := by
    intro k hk result hm
    have hnews := List.filter_eq_nil_iff.mp hinner.2 _ (mem_heard_resolved.mpr hm)
    simp [hk] at hnews
  refine ⟨⟨(step_unclosed hs.goesOn).trans h.closed, ?_, hinner.1, fun k hk => ?_⟩, ?_⟩
  · refine ((step_broker d s).resolve_right ?_).trans h.broker
    rintro ⟨⟨c, hc⟩, -⟩
    exact hs.goesOn c hc
  · rw [(step_aside (hs.begun k hk) (hquiet k hk) (.inl (hs.answered k hk))).same]
    exact h.sends k hk
  · refine seen_eq_nil.mpr fun x hx => ?_
    have unowned : ∀ k, x.about? = some k → own.contains k = false := by
      intro k hk
      rw [List.contains_eq_mem, decide_eq_false_iff_not]
      intro hown
      cases step_cause hx hk with
      | begins n hbegin => exact hs.begun k hown (hbegin ▸ rfl)
      | resolved _ result hout => exact hquiet k hown result hout
      | answers _ hans => exact hs.answered k hown hans
    cases x with
    | asked k b =>
      have hnews := List.filter_eq_nil_iff.mp hinner.2 _ (mem_heard_asked.mpr hx)
      simpa [Output.tells] using hnews
    | loaded k y =>
      have hnews := List.filter_eq_nil_iff.mp hinner.2 _ (mem_heard_loaded.mpr hx)
      simpa [Output.tells] using hnews
    | resolved k result =>
      have hnews := List.filter_eq_nil_iff.mp hinner.2 _ (mem_heard_resolved.mpr hx)
      simpa [Output.tells] using hnews
    | attempted k | published k | requested k | delivered k | sent k => exact unowned k rfl
    | counted | disconnected | closed => rfl

end Uplink.Dispatch
