import Uplink.Proofs.Dispatch.Aside
import Uplink.Proofs.Dispatch.Fan

namespace Uplink.Dispatch

open Backend Broker Notification Registry Time

variable {d : Dispatcher} {k : Nat} {n : Encoded} {o : List Output} {s : Step} {x : Outcome}
  {hooks : List Hook} {known : List BackendFailure} {result : Resolved} {steps : List Step}
  {broker : BrokerBackend} {ttl : Option Duration}

theorem Fan.aside (h : Fan k n known hooks d o) (hx : Aside k d x) :
    Fan k n known hooks x.1 (o ++ x.2) := by
  have he : endings k (o ++ x.2) = endings k o := by
    rw [endings_append, hx.quiet.endings, List.append_nil]
  refine ⟨h.distinct, ?_, by rw [he]; exact h.once, by rw [he]; exact h.own, ?_, ?_⟩
  · rw [attempts_append, hx.quiet.attempts, List.append_nil, h.attempts]
  · rw [results_append, hx.quiet.results, List.append_nil, he, h.results]
  · rw [he, hx.same]
    exact h.kept

/-- What is known of a send to fail when it is resolved. -/
def knownOf : Resolved → List BackendFailure
  | .ok e => e.failures.map ofConfiguration
  | .error (.storage x) => [ofStorage x]
  | .error .closed => []

/-- The webhooks a send is resolved to. -/
def hooksOf : Resolved → List Hook
  | .ok e => e.hooks
  | .error _ => []

theorem fan_of_onResolved (hs : d.send? k = some ⟨k, n, .resolving⟩) (hq : Quiet k o)
    (hopen : result ≠ .error .closed) (hd : ((hooksOf result).map (·.number)).Nodup) :
    Fan k n (knownOf result) (hooksOf result) (onResolved d ⟨k, n, .resolving⟩ result).1
      (o ++ (onResolved d ⟨k, n, .resolving⟩ result).2) := by
  match result with
  | .ok e => exact fan_of_deliver hs rfl hq hd _
  | .error (.storage x) =>
    exact fan_of_deliver (d := { d with stats :=
      { d.stats with storageFailures := d.stats.storageFailures + 1 } }) hs rfl hq hd _
  | .error .closed => exact absurd rfl hopen

/-- How far a send has come in a run. -/
inductive Story (send : Nat) (n : Encoded) (d : Dispatcher) (o : List Output) : Prop where
  /-- It was refused, at once or by its call. -/
  | refused (gone : d.send? send = none) (idle : send ∉ d.registry.calls.map (·.number))
      (closed : ∀ result, .resolved send result ∈ o → result = .error .closed)
      (unattempted : attempts send o = []) (unended : endings send o = [])
      (ended : results send o = [.error .closed])
  | resolving (waits : d.send? send = some ⟨send, n, .resolving⟩) (quiet : Quiet send o)
      (unresolved : ∀ result, .resolved send result ∉ o)
  /-- It was resolved to this, and its deliveries have begun. -/
  | delivering (result : Resolved) (idle : send ∉ d.registry.calls.map (·.number))
      (resolved : ∀ result', .resolved send result' ∈ o → result' = result)
      (fan : Fan send n (knownOf result) (hooksOf result) d o)
      (opened : result ≠ .error .closed) (out : .resolved send result ∈ o)

/-- What a step with work for the registry is to a send that waits for its application: it waits on,
or its call returns and it goes on. -/
inductive Waits (send : Nat) (n : Encoded) (d : Dispatcher) (x : Outcome) : Prop where
  | stays (waits : x.1.send? send = some ⟨send, n, .resolving⟩) (quiet : Quiet send x.2)
      (unresolved : ∀ result, .resolved send result ∉ x.2)
  | goesOn (result : Resolved) (d' : Dispatcher) (pre post : List Output)
      (idle : send ∉ x.1.registry.calls.map (·.number))
      (on : GoesOn send n d x result d' pre post)

theorem step_waits {t : Registry.Step} (hi : s.inner? d = some t) (ho : Orderly d s)
    (hs : s.begun? ≠ some k ∧ d.send? k = some ⟨k, n, .resolving⟩ ∨
      s = .begin k n ∧ d.send? k = none ∧ k ∉ d.registry.calls.map (·.number)) :
    Waits k n d (step d s) := by
  obtain ⟨d', pre, post, h⟩ := step_around hi
  obtain ⟨hr, hh⟩ := step_of_inner_some hi
  have hwaits : d'.send? k = some ⟨k, n, .resolving⟩ := by
    rcases hs with ⟨hb, hk⟩ | ⟨he, hk, _⟩
    · exact (h.others k hb).trans hk
    · exact h.own k n he hk
  have ht := ho t hi
  rw [← h.registry] at hr hh ht
  by_cases hk : k ∈ returns (Registry.step d'.registry t).2
  · have hfresh : t.begun? = some k → k ∉ d'.registry.calls.map (·.number) := by
      intro hb
      rw [begun_of_inner hi] at hb
      rcases hs with ⟨hs, _⟩ | ⟨_, _, hc⟩
      · exact absurd hb hs
      · rw [h.registry]
        exact hc
    obtain ⟨hone, hidle⟩ := ht.left hk hfresh
    obtain ⟨result, d'', pre', post', hg⟩ :=
      follow_resolved (d := { d' with registry := (Registry.step d'.registry t).1 }) hwaits hone
    refine .goesOn result d'' (pre ++ pre') (post' ++ post) (hr ▸ hidle) ?_
    refine ⟨hg.waits, hg.broker.trans h.broker, ?_, (h.before k).append hg.before,
      hg.after.append (h.after k), fun result' hm => ?_, (h.sends k).trans hg.same, ?_⟩
    · rw [hr]
      exact hg.registry.trans (follow_heard _ _).1
    · refine hg.resolved result' (mem_heard_resolved.mp ?_)
      rw [(follow_heard _ _).2, ← hh]
      exact mem_heard_resolved.mpr hm
    · rw [h.out, registryStep, hg.out]
      simp
  · have ha : Aside k { d' with registry := (Registry.step d'.registry t).1 } (registryStep d' t) :=
      follow_aside hk
    refine .stays ((h.sends k).trans (ha.same.trans hwaits)) ?_ fun result hm => ?_
    · rw [h.out]
      exact ((h.before k).append ha.quiet).append (h.after k)
    · rw [← mem_heard_resolved, hh] at hm
      exact hk (mem_returns_of_returned hm)

/-- A send that waits for its application goes on with it. -/
theorem Waits.story (h : Waits k n d x) (hq : Quiet k o) (hu : ∀ result, .resolved k result ∉ o)
    (hn : ∀ e, .resolved k (.ok e) ∈ x.2 → e.numbers.Nodup) : Story k n x.1 (o ++ x.2) := by
  cases h with
  | stays waits quiet unresolved =>
    refine .resolving waits (hq.append quiet) fun result hm => ?_
    exact (List.mem_append.mp hm).elim (hu result) (unresolved result)
  | goesOn result d' pre post idle on =>
    have hresolved : ∀ result', .resolved k result' ∈ o ++ x.2 → result' = result :=
      fun result' hm => on.resolved result' ((List.mem_append.mp hm).resolve_left (hu result'))
    by_cases hclosed : result = .error .closed
    · subst hclosed
      let said : List Output := [.resolved k (.error .closed), .sent k (.error .closed)]
      have hsaid : results k said = [.error .closed] := by simp [said, results]
      have hout : x.2 = pre ++ said ++ post := by simp [said, on.out, onResolved]
      refine .refused ?_ idle hresolved ?_ ?_ ?_
      · rw [on.same, onResolved, send?_dropSend, if_pos rfl]
      · simp only [hout, attempts_append, hq.attempts, on.before.attempts, on.after.attempts]
        rfl
      · simp only [hout, endings_append, hq.endings, on.before.endings, on.after.endings]
        rfl
      · simp only [hout, results_append, hq.results, on.before.results, on.after.results, hsaid]
        rfl
    · refine .delivering result idle hresolved ?_ hclosed (by simp [on.out])
      have hd : ((hooksOf result).map (·.number)).Nodup := by
        cases result with
        | ok e => exact hn e (by simp [on.out])
        | error x => exact List.nodup_nil
      have hq' : Quiet k (o ++ pre ++ [.resolved k result]) :=
        (hq.append on.before).append ⟨rfl, rfl, rfl⟩
      have hout : o ++ x.2 = o ++ pre ++ [.resolved k result] ++
          (onResolved d' ⟨k, n, .resolving⟩ result).2 ++ post := by simp [on.out]
      rw [hout]
      exact (fan_of_onResolved on.waits hq' hclosed hd).aside (x := (x.1, post))
        ⟨on.same, on.after⟩

theorem Story.step (h : Story k n d o) (ho : Orderly d s) (hb : s.begun? ≠ some k)
    (hn : ∀ e, .resolved k (.ok e) ∈ (step d s).2 → e.numbers.Nodup) :
    Story k n (step d s).1 (o ++ (step d s).2) := by
  cases h with
  | refused gone idle closed unattempted unended ended =>
    obtain ⟨hu, hidle⟩ := step_absent ho idle hb
    have ha : Aside k d (Dispatch.step d s) := step_aside hb hu (.inr (by simp [gone]))
    refine .refused (ha.same.trans gone) hidle (fun result hm => ?_) ?_ ?_ ?_
    · exact closed result ((List.mem_append.mp hm).resolve_right (hu result))
    · rw [attempts_append, unattempted, ha.quiet.attempts]
      rfl
    · rw [endings_append, unended, ha.quiet.endings]
      rfl
    · rw [results_append, ended, ha.quiet.results]
      rfl
  | resolving waits quiet unresolved =>
    cases hi : s.inner? d with
    | some t => exact (step_waits hi ho (.inl ⟨hb, waits⟩)).story quiet unresolved hn
    | none =>
      have hu : ∀ result, .resolved k result ∉ (Dispatch.step d s).2 := by
        intro result hm
        rw [← mem_heard_resolved, (step_of_inner_none hi).2] at hm
        cases hm
      have ha : Aside k d (Dispatch.step d s) := step_aside hb hu (.inr (by simp [waits]))
      refine .resolving (ha.same.trans waits) (quiet.append ha.quiet) fun result hm => ?_
      exact (List.mem_append.mp hm).elim (unresolved result) (hu result)
  | delivering result idle resolved fan opened out =>
    obtain ⟨hu, hidle⟩ := step_absent ho idle hb
    have hresolved : ∀ result', .resolved k result' ∈ o ++ (Dispatch.step d s).2 →
        result' = result :=
      fun result' hm => resolved result' ((List.mem_append.mp hm).resolve_right (hu result'))
    refine .delivering result hidle hresolved ?_ opened (List.mem_append_left _ out)
    by_cases hans : s.answered? = some k
    · exact fan.answered (step_answered hans d)
    · exact fan.aside (step_aside hb hu (.inl hans))

/-- A send whose call is in flight waits for its application. -/
theorem Story.calling (h : Story k n d o) (hk : k ∈ d.registry.calls.map (·.number)) :
    d.send? k = some ⟨k, n, .resolving⟩ := by
  cases h with
  | refused _ idle => exact absurd hk idle
  | resolving waits => exact waits
  | delivering _ idle => exact absurd hk idle

/-- A send in flight waits for its application, or has what its deliveries have come to. -/
theorem Story.in_flight {t : Send} (h : Story k n d o) (hs : d.send? k = some t) :
    t = ⟨k, n, .resolving⟩ ∨ ∃ result since, t = ⟨k, n, recorded (knownOf result) (hooksOf result)
      (endings k o) since⟩ ∧ ((hooksOf result).map (·.number)).Nodup := by
  cases h with
  | refused gone =>
    rw [gone] at hs
    cases hs
  | resolving waits =>
    rw [waits] at hs
    exact .inl (Option.some.inj hs).symm
  | delivering result _ _ fan =>
    obtain ⟨since, ht⟩ := fan.in_flight hs
    exact .inr ⟨result, since, ht, fan.distinct⟩

/-- No send delivers to two webhooks of one number. -/
theorem Story.hooks_distinct {t : Send} {b : Option Delivery} {hooks : List HookAttempt}
    {since : Duration} (h : Story k n d o) (hs : d.send? k = some t)
    (hphase : t.phase = .delivering known b hooks since) :
    (hooks.map (·.hook.number)).Nodup := by
  rcases h.in_flight hs with rfl | ⟨result, since', rfl, hd⟩
  · cases hphase
  · cases hphase
    simpa [Function.comp_def] using hd

theorem mem_begun : k ∈ steps.filterMap Step.begun? ↔
    (∃ n, .begin k n ∈ steps) ∨ ∃ a, .registry (.begin k a) ∈ steps := by
  simp only [List.mem_filterMap]
  constructor
  · rintro ⟨s, hs, hk⟩
    cases s with
    | begin j n =>
      cases hk
      exact .inl ⟨n, hs⟩
    | registry t =>
      cases t with
      | begin j a =>
        cases hk
        exact .inr ⟨a, hs⟩
      | _ => cases hk
    | _ => cases hk
  · rintro (⟨n, h⟩ | ⟨a, h⟩)
    · exact ⟨_, h, rfl⟩
    · exact ⟨_, h, rfl⟩

/-- A dispatcher as it starts. -/
abbrev fresh (broker : BrokerBackend) (ttl : Option Duration) : Dispatcher :=
  .start broker (Registry.start ttl)

theorem run_registry (broker : BrokerBackend) (ttl : Option Duration) (steps : List Step) :
    (run (fresh broker ttl) steps).1.registry =
      (Registry.run (Registry.start ttl) (inner (fresh broker ttl) steps)).1 :=
  congrArg Prod.fst (run_inner (fresh broker ttl) steps)

theorem run_heard (broker : BrokerBackend) (ttl : Option Duration) (steps : List Step) :
    heard (run (fresh broker ttl) steps).2 =
      (Registry.run (Registry.start ttl) (inner (fresh broker ttl) steps)).2 :=
  congrArg Prod.snd (run_inner (fresh broker ttl) steps)

/-- In a run with distinct numbers every step finds the calls in order. -/
theorem run_orderly (hd : Distinct (steps ++ [s])) :
    Orderly (run (fresh broker ttl) steps).1 s := by
  intro t ht
  have hi := hd.inner (fresh broker ttl)
  rw [inner_snoc, ht] at hi
  rw [run_registry]
  exact step_traffic _ t ((run_numbered ttl hi.append_left).fresh hi)

theorem Distinct.fresh (hd : Distinct (steps ++ [s])) (hb : s.begun? = some k) :
    k ∉ steps.filterMap Step.begun? := by
  unfold Distinct at hd
  rw [List.filterMap_append] at hd
  intro hm
  exact (List.nodup_append.mp hd).2.2 k hm k (List.mem_filterMap.mpr ⟨s, by simp, hb⟩) rfl

/-- A send that has not begun is nowhere to be found. -/
theorem run_absent (broker : BrokerBackend) (ttl : Option Duration) (hd : Distinct steps)
    (hk : k ∉ steps.filterMap Step.begun?) :
    (run (fresh broker ttl) steps).1.send? k = none ∧
      k ∉ (run (fresh broker ttl) steps).1.registry.calls.map (·.number) ∧
      Quiet k (run (fresh broker ttl) steps).2 ∧
      ∀ result, .resolved k result ∉ (run (fresh broker ttl) steps).2 := by
  induction steps using List.reverseRecOn with
  | nil => exact ⟨rfl, List.not_mem_nil, .nil, fun _ => List.not_mem_nil⟩
  | append_singleton steps s ih =>
    rw [List.filterMap_append, List.mem_append, not_or] at hk
    obtain ⟨hgone, hidle, hq, hu⟩ := ih hd.append_left hk.1
    have hb : s.begun? ≠ some k :=
      fun hb => hk.2 (List.mem_filterMap.mpr ⟨s, List.mem_singleton.mpr rfl, hb⟩)
    obtain ⟨hu', hidle'⟩ := step_absent (run_orderly hd) hidle hb
    have ha := step_aside hb hu' (.inr (by simp [hgone]))
    rw [run_snoc]
    refine ⟨ha.same.trans hgone, hidle', hq.append ha.quiet, fun result hm => ?_⟩
    exact (List.mem_append.mp hm).elim (hu result) (hu' result)

/-- A call that is in flight has begun. -/
theorem run_called (hd : Distinct steps)
    (hk : k ∈ (run (fresh broker ttl) steps).1.registry.calls.map (·.number)) :
    k ∈ steps.filterMap Step.begun? := by
  by_contra hno
  exact (run_absent broker ttl hd hno).2.1 hk

/-- A call that returns was in flight, or begins with the step. -/
theorem run_returning {t : Registry.Step} (hd : Distinct (steps ++ [s]))
    (ht : s.inner? (run (fresh broker ttl) steps).1 = some t)
    (hk : k ∈ returns (Registry.step (run (fresh broker ttl) steps).1.registry t).2) :
    k ∈ (run (fresh broker ttl) steps).1.registry.calls.map (·.number) ∨ s.begun? = some k := by
  by_contra hno
  rw [not_or] at hno
  exact ((run_orderly hd t ht).absent hno.1 (begun_of_inner ht ▸ hno.2)).1 hk

/-- The entries that sends are resolved to have webhooks of distinct numbers. -/
theorem resolved_numbers {e : Entry}
    (h : .resolved k (.ok e) ∈ (run (fresh broker ttl) steps).2) : e.numbers.Nodup := by
  rw [← mem_heard_resolved, run_heard] at h
  obtain ⟨a, -, c, -, hl⟩ := returned_entry h
  obtain ⟨before, t, after, -, ht⟩ := Registry.mem_run hl
  obtain ⟨rows, -, hb⟩ := step_found ht
  exact hb.numbers

/-- Every send that begins in a run has its story. -/
theorem run_story (broker : BrokerBackend) (ttl : Option Duration) (hd : Distinct steps)
    (hk : .begin k n ∈ steps) :
    Story k n (run (fresh broker ttl) steps).1 (run (fresh broker ttl) steps).2 := by
  induction steps using List.reverseRecOn with
  | nil => cases hk
  | append_singleton steps s ih =>
    have ho : Orderly (run (fresh broker ttl) steps).1 s := run_orderly hd
    have hn : ∀ e, .resolved k (.ok e) ∈ (step (run (fresh broker ttl) steps).1 s).2 →
        e.numbers.Nodup := by
      intro e he
      have hm : .resolved k (.ok e) ∈ (run (fresh broker ttl) (steps ++ [s])).2 := by
        rw [run_snoc]
        exact List.mem_append_right _ he
      exact resolved_numbers hm
    rw [run_snoc]
    rcases List.mem_append.mp hk with hk | hk
    · refine (ih hd.append_left hk).step ho (fun hb => ?_) hn
      exact hd.fresh hb (mem_begun.mpr (.inl ⟨n, hk⟩))
    · obtain rfl := List.mem_singleton.mp hk
      obtain ⟨hgone, hidle, hq, hu⟩ :=
        run_absent broker ttl hd.append_left (hd.fresh (s := .begin k n) rfl)
      cases hi : (Step.begin k n).inner? (run (fresh broker ttl) steps).1 with
      | some t => exact (step_waits hi ho (.inr ⟨rfl, hgone, hidle⟩)).story hq hu hn
      | none =>
        have hclosed : (run (fresh broker ttl) steps).1.closed = true := by
          simpa [Step.inner?] using hi
        have hs : step (run (fresh broker ttl) steps).1 (.begin k n) =
            ((run (fresh broker ttl) steps).1, [.sent k (.error .closed)]) := by
          simp only [step, begin, hclosed, ↓reduceIte]
        rw [hs]
        refine .refused hgone hidle (fun result hm => ?_) ?_ ?_ ?_
        · rcases List.mem_append.mp hm with hm | hm
          · exact absurd hm (hu result)
          · simp at hm
        · rw [attempts_append, hq.attempts]
          rfl
        · rw [endings_append, hq.endings]
          rfl
        · rw [results_append, hq.results]
          simp [results]

end Uplink.Dispatch
