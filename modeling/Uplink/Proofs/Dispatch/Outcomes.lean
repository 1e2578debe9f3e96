import Uplink.Proofs.Dispatch.Story
import Uplink.Proofs.Registry.Shutdown

namespace Uplink.Dispatch

open Backend Broker Notification Registry Time

variable {d : Dispatcher} {k : Nat} {n : Encoded} {t : Target} {x : Delivery} {s : Step}
  {y : Outcome} {steps more : List Step} {hooks : List Hook} {known : List BackendFailure}
  {o : List Output} {broker : BrokerBackend} {ttl : Option Duration}

/-- Backends are closed before a run or in it. -/
def Closing (broker : BrokerBackend) (steps : List Step) : Prop :=
  broker.closed = true ∨ (∃ close, .beginClose close ∈ steps) ∨ .registry .close ∈ steps

/-- How a delivery of a send comes to its outcome. -/
inductive Came (broker : BrokerBackend) (steps : List Step) (send : Nat) (n : Encoded) :
    Target → Delivery → Prop where
  | published (a : Answer) (answered : .brokerAnswer send a ∈ steps) :
      Came broker steps send n .broker (broker.settle n.topic a)
  | posted (h : Hook) (url : Url) (r : Except Webhook.RequestError Nat)
      (answered : .hookAnswer send h.number r ∈ steps)
      (goes : h.endpoints.url? n.event = some url) :
      Came broker steps send n (.hook h) (WebhookBackend.settle url r)
  | refused (t : Target) (closing : Closing broker steps) :
      Came broker steps send n t (.error .closed)
  | skipped (h : Hook) (nowhere : h.endpoints.url? n.event = none) :
      Came broker steps send n (.hook h) (.ok ())

theorem Closing.append (h : Closing broker steps) (more : List Step) :
    Closing broker (steps ++ more) := by
  rcases h with h | ⟨c, h⟩ | h
  · exact .inl h
  · exact .inr (.inl ⟨c, List.mem_append_left _ h⟩)
  · exact .inr (.inr (List.mem_append_left _ h))

theorem Came.append (h : Came broker steps k n t x) (more : List Step) :
    Came broker (steps ++ more) k n t x := by
  cases h with
  | published a answered => exact .published a (List.mem_append_left _ answered)
  | posted h url r answered goes => exact .posted h url r (List.mem_append_left _ answered) goes
  | refused _ closing => exact .refused t (closing.append more)
  | skipped h nowhere => exact .skipped h nowhere

theorem step_broker (d : Dispatcher) (s : Step) :
    (step d s).1.broker = d.broker ∨
      (∃ close, s = .beginClose close) ∧ (step d s).1.broker = { d.broker with closed := true } := by
  cases s with
  | begin j m =>
    simp only [step, begin]
    split
    · exact .inl rfl
    · exact .inl (follow_broker _ _)
  | registry t => exact .inl (follow_broker _ _)
  | brokerAnswer j a => exact .inl (brokerAnswer_answered d j a).touches.broker
  | hookAnswer j hook r => exact .inl (hookAnswer_answered d j hook r).touches.broker
  | beginClose close =>
    simp only [step, beginClose]
    split
    · exact .inl rfl
    · have hb : (registryStep { d with closed := true } .close).1.broker = d.broker :=
        follow_broker _ _
      split
      · exact .inl hb
      · exact .inr ⟨⟨close, rfl⟩, congrArg (fun b : BrokerBackend => { b with closed := true }) hb⟩
  | closeAnswer a =>
    simp only [step, closeAnswer]
    split <;> exact .inl rfl

/-- The broker is as it was, but for being closed. -/
theorem run_broker (broker : BrokerBackend) (ttl : Option Duration) (steps : List Step) :
    (∀ topic a, (run (fresh broker ttl) steps).1.broker.settle topic a = broker.settle topic a) ∧
      ((run (fresh broker ttl) steps).1.broker.closed = true → Closing broker steps) := by
  induction steps using List.reverseRecOn with
  | nil => exact ⟨fun _ _ => rfl, .inl⟩
  | append_singleton steps s ih =>
    obtain ⟨hs, hc⟩ := ih
    rw [run_snoc]
    rcases step_broker (run (fresh broker ttl) steps).1 s with hb | ⟨⟨c, rfl⟩, hb⟩
    · rw [hb]
      exact ⟨hs, fun h => (hc h).append _⟩
    · rw [hb]
      refine ⟨fun topic a => ?_, fun _ => .inr (.inl ⟨c, by simp⟩)⟩
      rw [← hs]
      cases a <;> rfl

theorem close_mem_inner (h : .close ∈ inner d steps) :
    (∃ close, .beginClose close ∈ steps) ∨ .registry .close ∈ steps := by
  induction steps generalizing d with
  | nil => cases h
  | cons s steps ih =>
    rcases List.mem_append.mp h with h | h
    · cases s with
      | registry t =>
        simp only [Step.inner?, Option.toList_some, List.mem_singleton] at h
        rw [h]
        exact .inr List.mem_cons_self
      | beginClose c => exact .inl ⟨c, List.mem_cons_self⟩
      | begin j m =>
        simp only [Step.inner?] at h
        split at h <;> simp at h
      | _ => cases h
    · rcases ih h with ⟨c, hc⟩ | h
      · exact .inl ⟨c, List.mem_cons_of_mem _ hc⟩
      · exact .inr (List.mem_cons_of_mem _ h)

/-- A webhook that is closed was closed with the registry. -/
theorem run_hook_closed (broker : BrokerBackend) (ttl : Option Duration) {h : Hook}
    (hc : ((run (fresh broker ttl) steps).1.registry.backend h).closed = true) :
    Closing broker steps := by
  refine .inr (close_mem_inner (d := fresh broker ttl) ?_)
  by_contra hn
  rw [run_registry, Registry.backend, (open_before_close ttl hn).2] at hc
  cases hc

theorem endings_proceed (d : Dispatcher) (s : Send) (j : Nat) : endings j (proceed d s).2 = [] := by
  cases hc : concluded? s.phase with
  | some result =>
    rw [(proceed_of_some hc).2.2.2]
    rfl
  | none =>
    rw [proceed_of_none hc]
    rfl

theorem endings_deliver (d : Dispatcher) (n : Encoded) (p : Phase) (known : List BackendFailure)
    (hooks : List Hook) (h : (t, x) ∈ endings k (deliver d ⟨k, n, p⟩ known hooks).2) :
    (launch d k n t).1 = some x := by
  rw [deliver_eq, endings_append, endings_proceed, List.append_nil, endings_launches] at h
  obtain ⟨u, -, hu⟩ := List.mem_flatMap.mp h
  obtain ⟨z, hz, he⟩ := List.mem_map.mp hu
  cases he
  exact Option.mem_toList.mp hz

/-- What ends in the step in which a send goes on ends at once. -/
theorem Waits.ending (h : Waits k n d y) (he : (t, x) ∈ endings k y.2) :
    ∃ d' : Dispatcher, d'.broker = d.broker ∧ d'.registry = y.1.registry ∧
      (launch d' k n t).1 = some x := by
  cases h with
  | stays _ quiet _ =>
    rw [quiet.endings] at he
    cases he
  | goesOn result d' pre post _ on =>
    refine ⟨d', on.broker, on.registry, ?_⟩
    have hsplit : endings k y.2 = endings k (onResolved d' ⟨k, n, .resolving⟩ result).2 := by
      rw [on.out, endings_append, endings_append, on.before.endings, on.after.endings,
        List.append_nil]
      rfl
    rw [hsplit] at he
    match result with
    | .ok e => exact endings_deliver d' n _ _ _ he
    | .error (.storage z) =>
      exact endings_deliver { d' with stats :=
        { d'.stats with storageFailures := d'.stats.storageFailures + 1 } } n _ _ _ he
    | .error .closed => cases he

/-- A delivery that ends at once ends so because its backend is closed, or has nothing to do. -/
theorem launch_ended (h : (launch d k n t).1 = some x) :
    x = .error .closed ∧
        (d.broker.closed = true ∨ ∃ g, (d.registry.backend g).closed = true) ∨
      ∃ g, t = .hook g ∧ g.endpoints.url? n.event = none ∧ x = .ok () := by
  cases t with
  | broker =>
    simp only [launch, beginBroker] at h
    split at h
    · rename_i hc
      cases h
      exact .inl ⟨rfl, .inl hc⟩
    · cases h
  | hook g =>
    simp only [launch, beginHook, WebhookBackend.request] at h
    by_cases hc : (d.registry.backend g).closed
    · simp only [hc, ↓reduceIte] at h
      cases h
      exact .inl ⟨rfl, .inr ⟨g, hc⟩⟩
    · simp only [hc, Bool.false_eq_true, ↓reduceIte, Webhook.Endpoints.request] at h
      cases hu : (d.registry.backend g).endpoints.url? n.event with
      | none =>
        rw [hu] at h
        cases h
        exact .inr ⟨g, rfl, hu, rfl⟩
      | some url =>
        rw [hu] at h
        cases h

theorem Fan.brokerAnswer_ending (h : Fan k n known hooks d o) {a : Answer}
    (he : (t, x) ∈ endings k (Dispatch.brokerAnswer d k a).2) :
    t = .broker ∧ x = d.broker.settle n.topic a := by
  unfold Dispatch.brokerAnswer at he
  split at he
  · rename_i s hs
    obtain ⟨since, rfl⟩ := h.in_flight hs
    dsimp only [recorded] at he
    split at he
    · dsimp only at he
      rw [endings_append, endings_proceed, endings_ended, List.append_nil, List.mem_singleton] at he
      cases he
      exact ⟨rfl, rfl⟩
    · cases he
  · cases he

theorem Fan.hookAnswer_ending (h : Fan k n known hooks d o) {hook : Nat}
    {r : Except Webhook.RequestError Nat}
    (he : (t, x) ∈ endings k (Dispatch.hookAnswer d k hook r).2) :
    ∃ g url, t = .hook g ∧ g.number = hook ∧ g.endpoints.url? n.event = some url ∧
      x = WebhookBackend.settle url r := by
  unfold Dispatch.hookAnswer at he
  split at he
  · rename_i s hs
    obtain ⟨since, rfl⟩ := h.in_flight hs
    dsimp only [recorded] at he
    split at he
    · rename_i a hf
      have hp := List.find?_some hf
      rw [Bool.and_eq_true, beq_iff_eq] at hp
      split at he
      · rename_i url hu
        dsimp only at he
        rw [endings_append, endings_proceed, endings_ended, List.append_nil,
          List.mem_singleton] at he
        cases he
        exact ⟨a.hook, url, rfl, hp.1, hu, rfl⟩
      · cases he
    · cases he
  · cases he

/-- What ends at once in a run has its reason. -/
theorem came_of_waits (hw : Waits k n (run (fresh broker ttl) steps).1
      (step (run (fresh broker ttl) steps).1 s))
    (he : (t, x) ∈ endings k (step (run (fresh broker ttl) steps).1 s).2) :
    Came broker (steps ++ [s]) k n t x := by
  obtain ⟨d', hb, hr, hl⟩ := hw.ending he
  rcases launch_ended hl with ⟨rfl, hc | ⟨g, hc⟩⟩ | ⟨g, rfl, hu, rfl⟩
  · rw [hb] at hc
    exact .refused t (((run_broker broker ttl steps).2 hc).append _)
  · refine .refused t (run_hook_closed broker ttl (h := g) ?_)
    rw [run_snoc, ← hr]
    exact hc
  · exact .skipped g hu

/-- Every outcome of a send's deliveries is what came of that delivery. -/
theorem run_came (hd : Distinct steps) (hk : .begin k n ∈ steps)
    (he : (t, x) ∈ endings k (run (fresh broker ttl) steps).2) : Came broker steps k n t x := by
  induction steps using List.reverseRecOn with
  | nil => cases hk
  | append_singleton steps s ih =>
    have ho : Orderly (run (fresh broker ttl) steps).1 s := run_orderly hd
    have hnone : Aside k (run (fresh broker ttl) steps).1 (step (run (fresh broker ttl) steps).1 s) →
        (t, x) ∉ endings k (step (run (fresh broker ttl) steps).1 s).2 := by
      intro ha hm
      rw [ha.quiet.endings] at hm
      cases hm
    rw [run_snoc, endings_append] at he
    rcases List.mem_append.mp hk with hk | hk
    · rcases List.mem_append.mp he with he | he
      · exact (ih hd.append_left hk he).append _
      · have hb : s.begun? ≠ some k := fun hb => hd.fresh hb (mem_begun.mpr (.inl ⟨n, hk⟩))
        cases run_story broker ttl hd.append_left hk with
        | refused gone idle _ =>
          exact absurd he (hnone (step_aside hb (step_absent ho idle hb).1 (.inr (by simp [gone]))))
        | resolving waits _ _ =>
          cases hi : s.inner? (run (fresh broker ttl) steps).1 with
          | some t => exact came_of_waits (step_waits hi ho (.inl ⟨hb, waits⟩)) he
          | none =>
            refine absurd he (hnone (step_aside hb (fun result hm => ?_) (.inr (by simp [waits]))))
            rw [← mem_heard_resolved, (step_of_inner_none hi).2] at hm
            cases hm
        | delivering _ idle _ fan =>
          by_cases hans : s.answered? = some k
          · cases s with
            | brokerAnswer j a =>
              cases hans
              obtain ⟨rfl, rfl⟩ := fan.brokerAnswer_ending he
              rw [(run_broker broker ttl steps).1]
              exact .published a (by simp)
            | hookAnswer j hook r =>
              cases hans
              obtain ⟨g, url, rfl, rfl, hu, rfl⟩ := fan.hookAnswer_ending he
              exact .posted g url r (by simp) hu
            | _ => cases hans
          · exact absurd he (hnone (step_aside hb (step_absent ho idle hb).1 (.inl hans)))
    · obtain rfl := List.mem_singleton.mp hk
      obtain ⟨hgone, hidle, hq, -⟩ := run_absent broker ttl hd.append_left
        (hd.fresh (s := .begin k n) rfl)
      rw [hq.endings, List.nil_append] at he
      cases hi : (Step.begin k n).inner? (run (fresh broker ttl) steps).1 with
      | some t => exact came_of_waits (step_waits hi ho (.inr ⟨rfl, hgone, hidle⟩)) he
      | none =>
        have hclosed : (run (fresh broker ttl) steps).1.closed = true := by
          simpa [Step.inner?] using hi
        simp only [step, begin, hclosed, ↓reduceIte] at he
        cases he

end Uplink.Dispatch
