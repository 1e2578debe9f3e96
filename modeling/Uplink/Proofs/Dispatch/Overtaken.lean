import Uplink.Ingress.Response
import Uplink.Proofs.Dispatch.FanOut
import Uplink.Proofs.Dispatch.Shutdown

namespace Uplink.Dispatch

open Backend Broker Notification Registry Store Time

variable {d : Dispatcher} {k : Nat} {n : Encoded} {s : Step} {x : Outcome} {o : List Output}
  {result : Resolved} {steps before after : List Step} {broker : BrokerBackend}
  {ttl : Option Duration} {z : StorageError}

/-- What a send reports whose lookup fails after the close. -/
def lateFailure (z : StorageError) : DispatchError :=
  .delivery [ofStorage z, ⟨BrokerBackend.name, .transport .closed⟩]

/-- What becomes of a send that is not delivered before a close, in the steps after it. -/
inductive Overtaken (send : Nat) (n : Encoded) (after : List Step) (d : Dispatcher)
    (o : List Output) : Prop where
  /-- It still waits for its application, and its call is in flight. -/
  | held (waits : d.send? send = some ⟨send, n, .resolving⟩)
      (inFlight : send ∈ d.registry.calls.map (·.number)) (quiet : Quiet send o)
      (unresolved : ∀ result, .resolved send result ∉ o)
  /-- It was refused, at once or by its call. -/
  | refused (gone : d.send? send = none) (idle : send ∉ d.registry.calls.map (·.number))
      (closed : ∀ result, .resolved send result ∈ o → result = .error .closed)
      (ended : results send o = [.error .closed])
  /-- Its own lookup failed after the close. -/
  | failed (z : StorageError) (gone : d.send? send = none)
      (idle : send ∉ d.registry.calls.map (·.number))
      (answered : .registry (.answer send (.error z)) ∈ after)
      (resolved : ∀ result, .resolved send result ∈ o → result = .error (.storage z))
      (lookup : .resolved send (.error (.storage z)) ∈ o)
      (ended : results send o = [.error (lateFailure z)])

/-- What is nothing to the send leaves it where it is. -/
theorem Overtaken.aside (h : Overtaken k n after d o) (hx : Aside k d x)
    (hu : ∀ result, .resolved k result ∉ x.2)
    (hcalls : k ∈ x.1.registry.calls.map (·.number) ↔ k ∈ d.registry.calls.map (·.number))
    (more : List Step) : Overtaken k n (after ++ more) x.1 (o ++ x.2) := by
  have hresults : results k (o ++ x.2) = results k o := by
    rw [results_append, hx.quiet.results, List.append_nil]
  have hold : ∀ {result}, .resolved k result ∈ o ++ x.2 → .resolved k result ∈ o :=
    fun hm => (List.mem_append.mp hm).resolve_right (hu _)
  cases h with
  | held waits inFlight quiet unresolved =>
    exact .held (hx.same.trans waits) (hcalls.mpr inFlight) (quiet.append hx.quiet)
      fun r hm => unresolved r (hold hm)
  | refused gone idle closed ended =>
    exact .refused (hx.same.trans gone) (mt hcalls.mp idle) (fun r hm => closed r (hold hm))
      (hresults.trans ended)
  | failed z gone idle answered resolved lookup ended =>
    exact .failed z (hx.same.trans gone) (mt hcalls.mp idle) (List.mem_append_left _ answered)
      (fun r hm => resolved r (hold hm)) (List.mem_append_left _ lookup) (hresults.trans ended)

/-- A waiting send waits on, is refused by its call, or goes on with what its call returns. -/
theorem Waits.overtaken (h : Waits k n d x) (hq : Quiet k o) (hu : ∀ r, .resolved k r ∉ o)
    (hf : (∀ r, .resolved k r ∉ x.2) → k ∈ x.1.registry.calls.map (·.number))
    (after : List Step) :
    Overtaken k n after x.1 (o ++ x.2) ∨
      ∃ result d' pre post, result ≠ .error .closed ∧
        k ∉ x.1.registry.calls.map (·.number) ∧ GoesOn k n d x result d' pre post := by
  cases h with
  | stays waits quiet unresolved =>
    refine .inl (.held waits (hf unresolved) (hq.append quiet) fun r hm => ?_)
    exact (List.mem_append.mp hm).elim (hu r) (unresolved r)
  | goesOn result d' pre post idle on =>
    by_cases hclosed : result = .error .closed
    · subst hclosed
      refine .inl (.refused ?_ idle (fun r hm => ?_) ?_)
      · rw [on.same, onResolved, send?_dropSend, if_pos rfl]
      · exact on.resolved r ((List.mem_append.mp hm).resolve_left (hu r))
      · rw [results_append, hq.results, on.out, results_append, results_append, on.before.results,
          on.after.results]
        simp [onResolved, results]
    · exact .inr ⟨result, d', pre, post, hclosed, idle, on⟩

/-- A step that does not resolve a send is nothing to it. -/
theorem Overtaken.unresolved_step (h : Overtaken k n after d o) (ho : Orderly d s)
    (hb : s.begun? ≠ some k) (hu : ∀ result, .resolved k result ∉ (step d s).2)
    (more : List Step) :
    Overtaken k n (after ++ more) (step d s).1 (o ++ (step d s).2) := by
  have hphase : ∀ t, d.send? k = some t → t.phase = .resolving := by
    intro t ht
    cases h with
    | held waits _ _ _ =>
      rw [waits] at ht
      cases ht
      rfl
    | refused gone _ _ _ =>
      rw [gone] at ht
      cases ht
    | failed _ gone _ _ _ _ _ =>
      rw [gone] at ht
      cases ht
  refine h.aside (step_aside hb hu (.inr hphase)) hu ⟨fun hk => ?_, fun hk => ?_⟩ more
  · by_contra hn
    exact (step_absent ho hn hb).2 hk
  · exact step_in_flight ho (.inl hk) hu

/-- In a step the send stays where it is, is refused, or goes on with what its call returns. -/
theorem Overtaken.step (h : Overtaken k n after d o) (ho : Orderly d s) (hb : s.begun? ≠ some k)
    (more : List Step) :
    Overtaken k n (after ++ more) (step d s).1 (o ++ (step d s).2) ∨
      Quiet k o ∧ (∀ r, .resolved k r ∉ o) ∧
        ∃ result d' pre post, result ≠ .error .closed ∧
          k ∉ (step d s).1.registry.calls.map (·.number) ∧
          GoesOn k n d (step d s) result d' pre post := by
  cases h with
  | held waits inFlight quiet unresolved =>
    cases hi : s.inner? d with
    | some t =>
      rcases (step_waits hi ho (.inl ⟨hb, waits⟩)).overtaken quiet unresolved
        (step_in_flight ho (.inl inFlight)) (after ++ more) with h | h
      · exact .inl h
      · exact .inr ⟨quiet, unresolved, h⟩
    | none =>
      refine .inl ((Overtaken.held waits inFlight quiet unresolved).unresolved_step ho hb ?_ more)
      intro r hm
      rw [← mem_heard_resolved, (step_of_inner_none hi).2] at hm
      cases hm
  | refused gone idle closed ended =>
    exact .inl ((Overtaken.refused gone idle closed ended).unresolved_step ho hb
      (step_absent ho idle hb).1 more)
  | failed z gone idle answered resolved lookup ended =>
    exact .inl ((Overtaken.failed z gone idle answered resolved lookup ended).unresolved_step ho hb
      (step_absent ho idle hb).1 more)

theorem refused_at_once (hc : d.closed = true) (hgone : d.send? k = none)
    (hidle : k ∉ d.registry.calls.map (·.number)) (hq : Quiet k o)
    (hu : ∀ r, .resolved k r ∉ o) (after : List Step) :
    Overtaken k n after (step d (.begin k n)).1 (o ++ (step d (.begin k n)).2) := by
  have hs : step d (.begin k n) = (d, [.sent k (.error .closed)]) := by
    simp only [step, begin, hc, ↓reduceIte]
  rw [hs]
  refine .refused hgone hidle (fun r hm => ?_) ?_
  · rcases List.mem_append.mp hm with hm | hm
    · exact absurd hm (hu r)
    · simp at hm
  · rw [results_append, hq.results]
    simp [results]

theorem attempts_onResolved (d : Dispatcher) (hopen : result ≠ .error .closed) :
    attempts k (onResolved d ⟨k, n, .resolving⟩ result).2 ≠ [] := by
  have hdeliver : ∀ (d : Dispatcher) known hooks,
      attempts k (deliver d ⟨k, n, .resolving⟩ known hooks).2 ≠ [] := by
    intro d known hooks
    rw [deliver_eq, attempts_append, attempts_launches]
    simp [targets]
  cases result with
  | ok e => exact hdeliver d _ _
  | error x =>
    cases x with
    | closed => exact absurd rfl hopen
    | storage z =>
      exact hdeliver
        { d with stats := { d.stats with storageFailures := d.stats.storageFailures + 1 } } _ _

/-- A send that goes on delivers. -/
theorem GoesOn.attempts {d' : Dispatcher} {pre post : List Output}
    (h : GoesOn k n d x result d' pre post) (hopen : result ≠ .error .closed) :
    attempts k x.2 ≠ [] := by
  intro ha
  rw [h.out, attempts_append, attempts_append, List.append_eq_nil_iff,
    List.append_eq_nil_iff] at ha
  exact attempts_onResolved d' hopen ha.1.2

/-- A send that has begun and delivers nothing waits for its application, or was refused. -/
theorem run_undelivered (broker : BrokerBackend) (ttl : Option Duration) (hd : Distinct steps)
    (hk : .begin k n ∈ steps) (ha : attempts k (run (fresh broker ttl) steps).2 = []) :
    Overtaken k n [] (run (fresh broker ttl) steps).1 (run (fresh broker ttl) steps).2 := by
  induction steps using List.reverseRecOn with
  | nil => cases hk
  | append_singleton steps s ih =>
    have ho : Orderly (run (fresh broker ttl) steps).1 s := run_orderly hd
    rw [run_snoc] at ha ⊢
    rw [attempts_append, List.append_eq_nil_iff] at ha
    rcases List.mem_append.mp hk with hk | hk
    · have hb : s.begun? ≠ some k := fun hb => hd.fresh hb (mem_begun.mpr (.inl ⟨n, hk⟩))
      rcases (ih hd.append_left hk ha.1).step ho hb [] with h | ⟨-, -, _, _, _, _, hopen, -, on⟩
      · exact h
      · exact absurd ha.2 (on.attempts hopen)
    · obtain rfl := List.mem_singleton.mp hk
      obtain ⟨hgone, hidle, hq, hu⟩ :=
        run_absent broker ttl hd.append_left (hd.fresh (s := .begin k n) rfl)
      cases hi : (Step.begin k n).inner? (run (fresh broker ttl) steps).1 with
      | some t =>
        rcases (step_waits hi ho (.inr ⟨rfl, hgone, hidle⟩)).overtaken hq hu
          (step_in_flight ho (.inr ⟨rfl, t, hi⟩)) [] with h | ⟨_, _, _, _, hopen, -, on⟩
        · exact h
        · exact absurd ha.2 (on.attempts hopen)
      | none =>
        have hclosed : (run (fresh broker ttl) steps).1.closed = true := by
          simpa [Step.inner?] using hi
        exact refused_at_once hclosed hgone hidle hq hu []

/-- With its lookup failed and its broker closed, a send ends at once. -/
theorem onResolved_late (hb : d.broker.closed = true) (k : Nat) (n : Encoded) (z : StorageError) :
    (onResolved d ⟨k, n, .resolving⟩ (.error (.storage z))).1.send? k = none ∧
      results k (onResolved d ⟨k, n, .resolving⟩ (.error (.storage z))).2 =
        [.error (lateFailure z)] := by
  have hlaunch : ∀ stats, (launch { d with stats } k n .broker).1 = some (.error .closed) := by
    intro stats
    simp only [launch, beginBroker, hb, ↓reduceIte]
  have hc : ∀ now, concluded? (.delivering [ofStorage z] (some (.error .closed)) [] now) =
      some (.error (lateFailure z)) := fun _ => rfl
  simp only [onResolved, deliver_eq, hlaunch, List.map_nil]
  obtain ⟨hsends, -, -, ho⟩ := proceed_of_some (d := { d with stats :=
    { d.stats with storageFailures := d.stats.storageFailures + 1 } })
    (s := ⟨k, n, .delivering [ofStorage z] (some (.error .closed)) [] d.registry.now⟩)
    (hc d.registry.now)
  refine ⟨?_, ?_⟩
  · rw [Dispatcher.send?, hsends]
    exact (send?_dropSend _ k k).trans (if_pos rfl)
  · rw [results_append, results_launches, ho]
    simp [results]

/-- Where everything is closed, a send goes on with a lookup of its own that failed. -/
theorem GoesOn.failed {d' : Dispatcher} {pre post : List Output} (hdown : Down d)
    (h : GoesOn k n d (step d s) result d' pre post) (hopen : result ≠ .error .closed) :
    ∃ z, result = .error (.storage z) ∧ s = .registry (.answer k (.error z)) := by
  have hm : .resolved k result ∈ (step d s).2 := by
    rw [h.out]
    simp
  obtain ⟨t, hi, ht⟩ := heard_step (mem_heard_resolved.mpr hm)
  cases result with
  | ok e => exact absurd ht (Registry.step_refused hdown.registry t)
  | error x =>
    cases x with
    | closed => exact absurd rfl hopen
    | storage z =>
      obtain ⟨rfl, -⟩ := step_storage ht
      exact ⟨z, rfl, inner_answer hi⟩

theorem Overtaken.down_step (h : Overtaken k n after d o) (hdown : Down d) (ho : Orderly d s)
    (hb : s.begun? ≠ some k) :
    Overtaken k n (after ++ [s]) (Dispatch.step d s).1 (o ++ (Dispatch.step d s).2) := by
  rcases h.step ho hb [s] with h | ⟨hq, hu, result, d', pre, post, hopen, hidle, on⟩
  · exact h
  · obtain ⟨z, rfl, hs⟩ := on.failed hdown hopen
    have hbroker : d'.broker.closed = true := on.broker ▸ hdown.broker
    obtain ⟨hgone, hended⟩ := onResolved_late hbroker k n z
    refine .failed z (on.same.trans hgone) hidle (by simp [hs]) (fun r hm => ?_) ?_ ?_
    · exact on.resolved r ((List.mem_append.mp hm).resolve_left (hu r))
    · refine List.mem_append_right _ ?_
      rw [on.out]
      simp
    · rw [results_append, hq.results, on.out, results_append, results_append, on.before.results,
        on.after.results]
      simpa [results] using hended

theorem run_overtaken (broker : BrokerBackend) (ttl : Option Duration) {close : Nat}
    (hd : Distinct (before ++ .beginClose close :: after))
    (hk : .begin k n ∈ before ++ .beginClose close :: after)
    (ha : attempts k (run (fresh broker ttl) before).2 = []) :
    Overtaken k n after (run (fresh broker ttl) (before ++ .beginClose close :: after)).1
      (run (fresh broker ttl) (before ++ .beginClose close :: after)).2 := by
  induction after using List.reverseRecOn with
  | nil =>
    have hk' : .begin k n ∈ before := by simpa using hk
    have hb : (Step.beginClose close).begun? ≠ some k := nofun
    rw [run_snoc]
    refine (run_undelivered broker ttl hd.append_left hk' ha).unresolved_step (run_orderly hd) hb
      (fun r hm => ?_) []
    obtain ⟨t, hi, ht⟩ := heard_step (mem_heard_resolved.mpr hm)
    simp only [Step.inner?] at hi
    split at hi
    · cases hi
    · cases hi
      exact close_unreturned _ k r ht
  | append_singleton after s ih =>
    have hsplit : before ++ .beginClose close :: (after ++ [s]) =
        (before ++ .beginClose close :: after) ++ [s] := by simp
    rw [hsplit] at hd hk ⊢
    have hdown : Down (run (fresh broker ttl) (before ++ .beginClose close :: after)).1 :=
      run_down (c := close) broker ttl (by simp)
    have ho : Orderly (run (fresh broker ttl) (before ++ .beginClose close :: after)).1 s :=
      run_orderly hd
    rw [run_snoc]
    rcases List.mem_append.mp hk with hk | hk
    · have hb : s.begun? ≠ some k := fun hb => hd.fresh hb (mem_begun.mpr (.inl ⟨n, hk⟩))
      exact (ih hd.append_left hk).down_step hdown ho hb
    · obtain rfl := List.mem_singleton.mp hk
      obtain ⟨hgone, hidle, hq, hu⟩ :=
        run_absent broker ttl hd.append_left (hd.fresh (s := .begin k n) rfl)
      exact refused_at_once hdown.closed hgone hidle hq hu _

/-- A send that a close overtakes ends with its call, and once; until then the call is in flight. It
reports that the dispatcher is closed, and is answered so, just when its lookup has not failed
since; otherwise it reports failed deliveries, though it has made none. -/
theorem overtaken_closed_iff (broker : BrokerBackend) (ttl : Option Duration)
    (before : List Step) (close : Nat) (after : List Step) (k : Nat) (n : Encoded)
    (hd : Distinct (before ++ .beginClose close :: after))
    (hk : .begin k n ∈ before ++ .beginClose close :: after)
    (ha : attempts k (run (fresh broker ttl) before).2 = []) :
    let d := (run (fresh broker ttl) (before ++ .beginClose close :: after)).1
    let o := (run (fresh broker ttl) (before ++ .beginClose close :: after)).2
    (results k o).length ≤ 1 ∧
      (results k o = [] ↔ k ∈ d.registry.calls.map (·.number)) ∧
      (∀ result, .resolved k result ∈ o → results k o ≠ []) ∧
      (∀ result ∈ results k o, ∃ e, result = .error e ∧
        ((Ingress.Refusal.dispatch e).status = 503 ↔ e = .closed) ∧
        (e = .closed ↔ ∀ z, .resolved k (.error (.storage z)) ∉ o)) ∧
      ∀ z, .resolved k (.error (.storage z)) ∈ o →
        .registry (.answer k (.error z)) ∈ after ∧
          results k o = [.error (.delivery [ofStorage z, ⟨"mqtt", .transport .closed⟩])] := by
  intro d o
  have h : Overtaken k n after d o := run_overtaken broker ttl hd hk ha
  cases h with
  | held waits inFlight quiet unresolved =>
    have hnone : results k o = [] := quiet.results
    rw [hnone]
    exact ⟨Nat.zero_le 1, ⟨fun _ => inFlight, fun _ => rfl⟩,
      fun r hm => absurd hm (unresolved r), List.forall_mem_nil _,
      fun z hm => absurd hm (unresolved _)⟩
  | refused gone idle closed ended =>
    have hnone : ∀ z, .resolved k (.error (.storage z)) ∉ o := fun z hm => nomatch closed _ hm
    rw [ended]
    refine ⟨Nat.le_refl 1, ⟨nofun, fun hm => absurd hm idle⟩, fun r _ => List.cons_ne_nil _ _, ?_,
      fun z hm => absurd hm (hnone z)⟩
    rw [List.forall_mem_singleton]
    exact ⟨.closed, rfl, ⟨fun _ => rfl, fun _ => rfl⟩, ⟨fun _ => hnone, fun _ => rfl⟩⟩
  | failed z gone idle answered resolved lookup ended =>
    rw [ended]
    refine ⟨Nat.le_refl 1, ⟨nofun, fun hm => absurd hm idle⟩, fun r _ => List.cons_ne_nil _ _, ?_,
      fun z' hm => ?_⟩
    · rw [List.forall_mem_singleton]
      exact ⟨lateFailure z, rfl, ⟨nofun, nofun⟩, ⟨nofun, fun h => absurd lookup (h z)⟩⟩
    · cases resolved _ hm
      exact ⟨answered, rfl⟩

/-- The close comes while a send is held in its lookup, which then finds nothing. -/
theorem overtaken_closed_nothing_found :
    let broker := BrokerBackend.new .atMostOnce ⟨5⟩
    let before : List Step := [.begin 0 joined]
    let after : List Step := [.registry (.answer 0 (.ok []))]
    let d := (run (fresh broker none) (before ++ .beginClose 1 :: after)).1
    let o := (run (fresh broker none) (before ++ .beginClose 1 :: after)).2
    Distinct (before ++ .beginClose 1 :: after) ∧
      .begin 0 joined ∈ before ++ .beginClose 1 :: after ∧
      attempts 0 (run (fresh broker none) before).2 = [] ∧
      ((results 0 o).length ≤ 1 ∧
        (results 0 o = [] ↔ 0 ∈ d.registry.calls.map (·.number)) ∧
        (∀ result, .resolved 0 result ∈ o → results 0 o ≠ []) ∧
        (∀ result ∈ results 0 o, ∃ e, result = .error e ∧
          ((Ingress.Refusal.dispatch e).status = 503 ↔ e = .closed) ∧
          (e = .closed ↔ ∀ z, .resolved 0 (.error (.storage z)) ∉ o)) ∧
        ∀ z, .resolved 0 (.error (.storage z)) ∈ o →
          .registry (.answer 0 (.error z)) ∈ after ∧
            results 0 o = [.error (.delivery [ofStorage z, ⟨"mqtt", .transport .closed⟩])]) ∧
      results 0 o = [.error .closed] := by
  intro broker before after d o
  have hd : Distinct (before ++ .beginClose 1 :: after) := by decide
  have hk : .begin 0 joined ∈ before ++ .beginClose 1 :: after := List.mem_cons_self
  have ha : attempts 0 (run (fresh broker none) before).2 = [] := rfl
  exact ⟨hd, hk, ha, overtaken_closed_iff broker none before 1 after 0 joined hd hk ha, rfl⟩

/-- The close comes while a send is held in its lookup, which then fails: the send has not begun to
deliver, and yet it reports failed deliveries. -/
theorem overtaken_not_closed :
    let broker := BrokerBackend.new .atMostOnce ⟨5⟩
    let before : List Step := [.begin 0 joined]
    let after : List Step := [.registry (.answer 0 (.error (.unavailable "down")))]
    let failure : DispatchError :=
      .delivery [⟨"storage", .storage (.unavailable "down")⟩, ⟨"mqtt", .transport .closed⟩]
    Distinct (before ++ .beginClose 1 :: after) ∧
      attempts 0 (run (fresh broker none) before).2 = [] ∧
      results 0 (run (fresh broker none) (before ++ .beginClose 1 :: after)).2 =
        [.error failure] ∧
      failure ≠ .closed ∧ (Ingress.Refusal.dispatch failure).status = 502 :=
  ⟨by decide, rfl, rfl, nofun, rfl⟩

end Uplink.Dispatch
