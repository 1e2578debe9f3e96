import Uplink.Proofs.Dispatch.Conclusion
import Uplink.Proofs.Registry.Order
import Uplink.Proofs.Service.Counters

namespace Uplink.Service

open Backend Dispatch Notification Registry

variable {s s' : Service} {n : Encoded} {o : Outcome} {xs ys : List Dispatch.Step}
  {ks : List Nat} {answers : List (Nat × Lookup)} {broker : BrokerBackend}
  {ttl : Option Time.Duration} {steps : List Dispatch.Step} {k : Nat} {result : Sent}

/-- Work in which the dispatcher makes these steps. -/
structure Plays (s : Service) (steps : List Dispatch.Step) (o : Outcome) : Prop where
  dispatcher : o.1.dispatcher = (Dispatch.run s.dispatcher steps).1
  said : o.2 = (Dispatch.run s.dispatcher steps).2
  next : o.1.next = s.next

theorem foldl_note_next (s : Service) (outs : List Dispatch.Output) :
    (outs.foldl note s).next = s.next := by
  induction outs generalizing s with
  | nil => rfl
  | cons x outs ih =>
    rw [List.foldl_cons, ih]
    cases x <;> rfl

theorem perform_plays (s : Service) (t : Dispatch.Step) : Plays s [t] (s.perform t) := by
  refine ⟨?_, rfl, ?_⟩
  · exact (foldl_note { s with dispatcher := (Dispatch.step s.dispatcher t).1 } _).dispatcher
  · exact foldl_note_next { s with dispatcher := (Dispatch.step s.dispatcher t).1 } _

theorem Plays.andThen (h : Plays s xs o) {work : Service → Outcome}
    (h' : Plays o.1 ys (work o.1)) : Plays s (xs ++ ys) (andThen o work) := by
  obtain ⟨hd, ho, hn⟩ := h
  obtain ⟨hd', ho', hn'⟩ := h'
  rw [hd] at hd' ho'
  refine ⟨?_, ?_, hn'.trans hn⟩
  · rw [Dispatch.run_append]
    exact hd'
  · rw [Dispatch.run_append, ← ho, ← ho']
    rfl

theorem Plays.performAll (h : Plays s xs o) (ts : List Dispatch.Step) :
    Plays s (xs ++ ts) (ts.foldl (fun o t => Service.andThen o (·.perform t)) o) := by
  induction ts generalizing xs o with
  | nil =>
    rw [List.append_nil]
    exact h
  | cons t ts ih =>
    rw [List.foldl_cons, ← List.singleton_append, ← List.append_assoc]
    exact ih (h.andThen (perform_plays o.1 t))

/-- An answer to a call that has returned is dropped. -/
theorem answer_gone {d : Dispatcher} (h : d.registry.call? k = none) (found : Lookup) :
    Dispatch.run d [.registry (.answer k found)] = (d, []) := by
  rw [Dispatch.run_cons]
  simp only [Dispatch.step, registryStep, Registry.step, Registry.answer, h]
  rfl

/-- A call goes on, and its lookup is answered if it has one. -/
theorem finishCall_plays (s : Service) (k : Nat) :
    ∃ found, Plays s [.registry (.wake k), .registry (.answer k found)] (s.finishCall k) := by
  have hwake := perform_plays s (.registry (.wake k))
  cases hc : (s.perform (.registry (.wake k))).1.registry.call? k with
  | some c =>
    refine ⟨(s.perform (.registry (.wake k))).1.lookup c.application, hwake.andThen ?_⟩
    simp only [hc]
    exact perform_plays _ _
  | none =>
    -- the call has returned, and nobody waits for an answer
    refine ⟨.ok [], hwake.andThen ?_⟩
    simp only [hc]
    have hidle := answer_gone (d := (s.perform (.registry (.wake k))).1.dispatcher) hc (.ok [])
    exact ⟨by rw [hidle], by rw [hidle], rfl⟩

theorem Plays.finishAll (h : Plays s xs o) (ks : List Nat) :
    ∃ answers : List (Nat × Lookup), answers.map (·.1) = ks ∧
      Plays s (xs ++ (finishing answers).map .registry)
        (ks.foldl (fun o k => Service.andThen o (·.finishCall k)) o) := by
  induction ks generalizing xs o with
  | nil =>
    refine ⟨[], rfl, ?_⟩
    rw [finishing, List.flatMap_nil, List.map_nil, List.append_nil]
    exact h
  | cons k ks ih =>
    obtain ⟨found, hfinish⟩ := finishCall_plays o.1 k
    have hfirst : Plays s (xs ++ [.registry (.wake k), .registry (.answer k found)])
        (Service.andThen o (·.finishCall k)) := h.andThen hfinish
    obtain ⟨answers, hnumbers, hrest⟩ := ih hfirst
    refine ⟨(k, found) :: answers, by rw [List.map_cons, hnumbers], ?_⟩
    rw [List.append_assoc] at hrest
    exact hrest

/-- When a service settles, its calls go on in the order in which they began, and what has come out
is answered. -/
theorem Plays.settle (h : Plays s xs o) :
    ∃ (answers : List (Nat × Lookup)) (time : Time.Duration) (s' : Service),
      answers.map (·.1) = o.1.registry.calls.map (·.number) ∧
      Plays s (xs ++ (finishing answers).map .registry ++ (.registry (.pass time) ::
          (Dispatch.run s.dispatcher (xs ++ (finishing answers).map .registry)).2.filterMap
            s'.reaction)) (settle o) := by
  obtain ⟨answers, hnumbers, hcalls⟩ := h.finishAll (o.1.registry.calls.map (·.number))
  generalize hfinished : (o.1.registry.calls.map (·.number)).foldl
    (fun o k => Service.andThen o (·.finishCall k)) o = x at hcalls
  have hsettle : Service.settle o = Service.andThen x (·.attend x.2) := by
    rw [Service.settle, hfinished]
  refine ⟨answers, x.1.longest x.2, x.1, hnumbers, ?_⟩
  rw [hsettle, ← hcalls.said]
  apply hcalls.andThen
  exact (perform_plays x.1 _).performAll _

/-- A service as it can be met: its dispatcher has started and has done something since, under
numbers that were given out once each. -/
def Reached (s : Service) : Prop :=
  ∃ broker ttl steps, Dispatch.Distinct steps ∧ (∀ k ∈ steps.filterMap Dispatch.Step.begun?, k < s.next) ∧
    s.dispatcher = (Dispatch.run (fresh broker ttl) steps).1

theorem reached_start (broker : BrokerBackend) (ttl : Option Time.Duration) (source : Store.Source)
    (far : Webhook.FarSide) : Reached (start broker ttl source far) :=
  ⟨broker, ttl, [], List.nodup_nil, List.forall_mem_nil _, rfl⟩

/-- A service in whose life all numbers are different and have been given out. -/
theorem reached_lives (broker : BrokerBackend) (ttl : Option Time.Duration) (source : Store.Source)
    (far : Webhook.FarSide) (hs : List Happening) (hd : Dispatch.Distinct (stepsOf hs))
    (next : Nat) (hn : ∀ k ∈ (stepsOf hs).filterMap Dispatch.Step.begun?, k < next) :
    Reached { lives (start broker ttl source far) hs with next } :=
  ⟨broker, ttl, stepsOf hs, hd, hn, (lives_ran (start broker ttl source far) hs).dispatcher⟩

theorem Reached.of_same (h : Reached s) (hd : s'.dispatcher = s.dispatcher)
    (hn : s'.next = s.next) : Reached s' := by
  obtain ⟨broker, ttl, steps, hdistinct, hbelow, hs⟩ := h
  exact ⟨broker, ttl, steps, hdistinct, hn ▸ hbelow, hd.trans hs⟩

theorem begun_finishing (answers : List (Nat × Lookup)) :
    ((finishing answers).map Dispatch.Step.registry).filterMap Dispatch.Step.begun? = [] := by
  induction answers with
  | nil => rfl
  | cons x answers ih => exact ih

theorem begun_reactions (s : Service) (outs : List Dispatch.Output) :
    (outs.filterMap s.reaction).filterMap Dispatch.Step.begun? = [] := by
  apply List.filterMap_eq_nil_iff.mpr
  intro t ht
  obtain ⟨x, -, hx⟩ := List.mem_filterMap.mp ht
  cases x <;> cases hx <;> rfl

/-- What begins nothing leads to a service that can be met, too. -/
theorem Reached.plays (h : Reached s) (hp : Plays s xs o)
    (hnew : xs.filterMap Dispatch.Step.begun? = []) : Reached o.1 := by
  obtain ⟨broker, ttl, steps, hd, hn, hs⟩ := h
  refine ⟨broker, ttl, steps ++ xs, ?_, ?_, ?_⟩
  · rw [Dispatch.Distinct, List.filterMap_append, hnew, List.append_nil]
    exact hd
  · rw [List.filterMap_append, hnew, List.append_nil, hp.next]
    exact hn
  · rw [hp.dispatcher, hs, Dispatch.run_append]

theorem inner_registry (d : Dispatcher) (ts : List Registry.Step) :
    Dispatch.inner d (ts.map .registry) = ts := by
  induction ts generalizing d with
  | nil => rfl
  | cons t ts ih =>
    rw [List.map_cons, Dispatch.inner, ih]
    rfl

/-- A send's call has returned when all calls have gone on in their order. -/
theorem send_idle (hd : Dispatch.Distinct (steps ++ [.begin k n]))
    (hans : answers.map (·.1) =
      (Dispatch.run (fresh broker ttl) (steps ++ [.begin k n])).1.registry.calls.map (·.number)) :
    k ∉ (Dispatch.run (fresh broker ttl)
      (steps ++ .begin k n :: (finishing answers).map .registry)).1.registry.calls.map
        (·.number) := by
  have hsplit : steps ++ .begin k n :: (finishing answers).map Dispatch.Step.registry =
      (steps ++ [.begin k n]) ++ (finishing answers).map .registry := by simp
  have hlater : ∀ d, (Dispatch.run d ((finishing answers).map .registry)).1.registry =
      (Registry.run d.registry (finishing answers)).1 := by
    intro d
    have h := congrArg Prod.fst (run_inner d ((finishing answers).map .registry))
    rw [inner_registry] at h
    exact h
  rw [hsplit, Dispatch.run_append, hlater]
  cases hi : (Dispatch.Step.begin k n).inner? (Dispatch.run (fresh broker ttl) steps).1 with
  | none =>
    -- the send is refused, and no call begins for it
    apply finishing_absent
    obtain ⟨-, hidle, -⟩ := run_absent broker ttl hd.append_left (hd.fresh (s := .begin k n) rfl)
    rw [Dispatch.run_snoc, (step_of_inner_none hi).1]
    exact hidle
  | some t =>
    have ht : t = .begin k n.applicationId := by
      simp only [Step.inner?, Option.ite_none_left_eq_some] at hi
      exact (Option.some.inj hi.2).symm
    have hinner := hd.inner (fresh broker ttl)
    rw [run_registry] at hans ⊢
    rw [inner_snoc, hi, Option.toList_some, ht] at hans hinner ⊢
    exact begin_finishes hinner hans

theorem sent?_eq (k : Nat) (outs : List Dispatch.Output) : sent? k outs = (results k outs).head? :=
  List.head?_filterMap.symm

theorem begun_begin (k : Nat) (n : Encoded) (later : List Dispatch.Step) :
    (Dispatch.Step.begin k n :: later).filterMap Dispatch.Step.begun? =
      k :: later.filterMap Dispatch.Step.begun? := rfl

/-- A send that takes the next number has it for itself. -/
theorem distinct_begin {next : Nat} {later : List Dispatch.Step} (hd : Dispatch.Distinct steps)
    (hn : ∀ k ∈ steps.filterMap Dispatch.Step.begun?, k < next) (n : Encoded)
    (hlater : later.filterMap Dispatch.Step.begun? = []) :
    Dispatch.Distinct (steps ++ .begin next n :: later) := by
  rw [Dispatch.Distinct, List.filterMap_append, begun_begin, hlater]
  apply List.nodup_append.mpr
  refine ⟨hd, List.nodup_singleton _, ?_⟩
  intro j hj k hk
  rw [List.mem_singleton.mp hk]
  exact Nat.ne_of_lt (hn j hj)

/-- What a service does for a send: it begins, the calls in flight go on in their order, and then
whatever has gone out is answered. -/
theorem send_plays (s : Service) (n : Encoded) :
    ∃ answers after,
      answers.map (·.1) =
        (Dispatch.run s.dispatcher [.begin s.next n]).1.registry.calls.map (·.number) ∧
      after.filterMap Dispatch.Step.begun? = [] ∧
      (∀ t, ∀ y ∈ (Dispatch.run s.dispatcher
          (.begin s.next n :: (finishing answers).map .registry)).2,
        Out s.next n t y → ∃ r ∈ after, Replies s.next n t r) ∧
      Plays { s with next := s.next + 1 }
        (.begin s.next n :: ((finishing answers).map .registry ++ after))
        (settle (s.beginSend n).2) := by
  have hbegin : Plays { s with next := s.next + 1 } [.begin s.next n] (s.beginSend n).2 :=
    perform_plays _ _
  obtain ⟨answers, time, s', hnumbers, hsettle⟩ := hbegin.settle
  refine ⟨answers, _, ?_, ?_, ?_, hsettle⟩
  · rw [hnumbers, Service.registry, hbegin.dispatcher]
  · exact begun_reactions s' _
  · intro t y hy hout
    have hanswer : ∀ r, s'.reaction y = some r → Replies s.next n t r →
        ∃ r ∈ .registry (.pass time) :: (Dispatch.run s.dispatcher
          (.begin s.next n :: (finishing answers).map .registry)).2.filterMap s'.reaction,
          Replies s.next n t r := by
      intro r hr hreplies
      exact ⟨r, List.mem_cons_of_mem _ (List.mem_filterMap.mpr ⟨y, hy, hr⟩), hreplies⟩
    cases hout with
    | message m => exact hanswer _ rfl (.broker _)
    | request g r wanted => exact hanswer _ rfl (.hook g _ wanted)

/-- A send that begins in a service as it can be met ends as the service settles, once. -/
theorem send_ends (h : Reached s) (n : Encoded) :
    ∃ result, results s.next (settle (s.beginSend n).2).2 = [result] ∧ Ends result := by
  obtain ⟨broker, ttl, steps, hd, hn, hs⟩ := h
  obtain ⟨answers, after, hnumbers, hquiet, hreplies, hplays⟩ := send_plays s n
  rw [hs] at hnumbers hreplies
  rw [hplays.said, hs]
  apply run_ends
  · apply distinct_begin hd hn n
    rw [List.filterMap_append, begun_finishing, hquiet, List.nil_append]
  · apply send_idle (distinct_begin hd hn n rfl)
    rw [hnumbers, Dispatch.run_append]
  · exact hreplies

/-- What a send comes to: its result is among what comes out while the service settles, and there is
no other. -/
def Returns (s : Service) (n : Encoded) (result : Sent) : Prop :=
  results s.next (settle (s.beginSend n).2).2 = [result]

theorem Returns.send (h : Returns s n result) : (s.send n).2 = result := by
  change sentOf s.next (settle (s.beginSend n).2).2 = result
  rw [sentOf, sent?_eq, show results s.next (settle (s.beginSend n).2).2 = [result] from h]
  rfl

/-- In a service as it can be met a send always returns, and what it returns is what is seen of it.
-/
theorem returns_iff (h : Reached s) (n : Encoded) (result : Sent) :
    Returns s n result ↔ (s.send n).2 = result := by
  constructor
  · exact Returns.send
  · rintro rfl
    obtain ⟨result, hr, -⟩ := send_ends h n
    rw [Returns.send hr]
    exact hr

/-- A send that can be encoded fails only as it is refused, or with the backends that have failed.
-/
theorem send_error {e : DispatchError} (h : Reached s) (he : (s.send n).2 = .error e) :
    e = .closed ∨ ∃ f rest, e = .delivery (f :: rest) := by
  obtain ⟨result, hr, hends⟩ := send_ends h n
  rw [Returns.send hr] at he
  rcases hends with rfl | ⟨failures, rfl⟩
  · cases he
    exact .inl rfl
  · exact .inr (report_error he)

/-- After a send a service is one that can be met. -/
theorem Reached.send (h : Reached s) (n : Encoded) : Reached (s.send n).1 := by
  obtain ⟨broker, ttl, steps, hd, hn, hs⟩ := h
  obtain ⟨answers, after, -, hquiet, -, hplays⟩ := send_plays s n
  have hlater : ((finishing answers).map Dispatch.Step.registry ++ after).filterMap
      Dispatch.Step.begun? = [] := by
    rw [List.filterMap_append, begun_finishing, hquiet, List.nil_append]
  refine ⟨broker, ttl, _, distinct_begin hd hn n hlater, ?_, ?_⟩
  · intro k hk
    rw [List.filterMap_append, begun_begin, hlater, List.mem_append, List.mem_singleton] at hk
    rw [show (s.send n).1.next = s.next + 1 from hplays.next]
    rcases hk with hk | rfl
    · exact Nat.lt_succ_of_lt (hn k hk)
    · exact Nat.lt_succ_self _
  · rw [Dispatch.run_append, ← hs]
    exact hplays.dispatcher

end Uplink.Service
