import Uplink.Proofs.Dispatch.Accounts

namespace Uplink.Dispatch

open Backend Broker Notification Registry Time

variable {d : Dispatcher} {k : Nat} {n : Encoded} {o o' : List Output} {s : Step} {t : Target}
  {hooks : List Hook} {known : List BackendFailure} {result : Resolved}
  {broker : BrokerBackend} {ttl : Option Duration} {steps before during after : List Step}

def Output.isAttempt : Output → Bool
  | .attempted _ _ _ => true
  | _ => false

theorem isAttempt_ended (k : Nat) (t : Target) (event : Event) (x : Delivery) :
    ∀ y ∈ ended k t event x, y.isAttempt = false := by
  simp [ended, Output.isAttempt]

theorem isAttempt_proceed (d : Dispatcher) (s : Send) :
    ∀ y ∈ (proceed d s).2, y.isAttempt = false := by
  intro y hy
  obtain ⟨result, rfl⟩ := proceed_says d s y hy
  rfl

/-- What holds of the outputs where no delivery begins, and of those with which one does, holds of
whatever comes out of a step. -/
theorem step_made_of {P : List Output → Prop} (append : ∀ o o', P o → P o' → P (o ++ o'))
    (still : ∀ o, (∀ x ∈ o, x.isAttempt = false) → P o)
    (launched : ∀ d k n t, P (launch d k n t).2) (d : Dispatcher) (s : Step) :
    P (step d s).2 := by
  have hlaunches : ∀ d k n hooks, P (launches d k n hooks) := by
    intro d k n hooks
    unfold launches
    induction targets hooks with
    | nil => exact still _ (List.forall_mem_nil _)
    | cons t ts ih =>
      rw [List.flatMap_cons]
      exact append _ _ (launched d k n t) ih
  have hdeliver : ∀ d s known hooks, P (deliver d s known hooks).2 := by
    intro d s known hooks
    rw [deliver_eq]
    exact append _ _ (hlaunches d _ _ hooks) (still _ (isAttempt_proceed d _))
  have honResolved : ∀ d s result, P (onResolved d s result).2 := by
    intro d s result
    match result with
    | .ok e => exact hdeliver d s _ _
    | .error (.storage x) => exact hdeliver _ s _ _
    | .error .closed =>
      apply still
      simp [onResolved, Output.isAttempt]
  have honOutput : ∀ d out, P (onOutput d out).2 := by
    intro d out
    cases out with
    | returned j result =>
      simp only [onOutput]
      split
      · exact append [.resolved j result] _ (still _ (by simp [Output.isAttempt]))
          (honResolved d _ result)
      · exact still _ (by simp [Output.isAttempt])
    | _ => exact still _ (by simp [onOutput, Output.isAttempt])
  have hfollow : ∀ d outs, P (follow d outs).2 := by
    intro d outs
    exact collect_keeps (f := onOutput) (P := fun _ o => P o) (o := [])
      (fun d' o out h => append _ _ h (honOutput d' out)) (still _ (List.forall_mem_nil _)) outs
  have hanswered : ∀ {k x}, Answered k d x → P x.2 := by
    intro k x hx
    cases hx with
    | dropped => exact still _ (List.forall_mem_nil _)
    | taken => exact append _ _ (still _ (isAttempt_ended _ _ _ _)) (still _ (isAttempt_proceed d _))
  cases s with
  | begin j m =>
    cases hc : d.closed with
    | true =>
      simp only [step, begin, hc, ↓reduceIte]
      exact still _ (by simp [Output.isAttempt])
    | false =>
      rw [step, begin_entered hc]
      exact append [.counted (.notification m.event)] _ (still _ (by simp [Output.isAttempt]))
        (hfollow _ _)
  | registry r => exact hfollow _ _
  | brokerAnswer j a => exact hanswered (brokerAnswer_answered d j a)
  | hookAnswer j hook r => exact hanswered (hookAnswer_answered d j hook r)
  | beginClose c =>
    obtain ⟨outs, word, -, hword, ho, -, -⟩ := beginClose_cases d c
    rw [step, ho]
    apply append
    · apply still
      intro x hx
      obtain ⟨out, -, rfl⟩ := List.mem_map.mp hx
      cases out <;> rfl
    · apply still
      intro x hx
      rw [List.mem_singleton.mp hx]
      cases word with
      | attempted => cases hword
      | _ => rfl
  | closeAnswer a =>
    apply still
    simp only [step, closeAnswer]
    split <;> simp [Output.isAttempt]

/-- An output that goes out for the delivery of a send to a target. -/
inductive Out (send : Nat) (n : Encoded) : Target → Output → Prop where
  | message (m : Message) : Out send n .broker (.published send m)
  | request (h : Hook) (r : Webhook.Request) (wanted : (h.endpoints.url? n.event).isSome) :
      Out send n (.hook h) (.requested send h.number r)

/-- Each delivery that begins ends at once, or something goes out for it. -/
def Tended (o : List Output) : Prop :=
  ∀ k t n, .attempted k t n ∈ o → (∃ x, .delivered k t x ∈ o) ∨ ∃ y ∈ o, Out k n t y

theorem Tended.append (h : Tended o) (h' : Tended o') : Tended (o ++ o') := by
  intro k t n hm
  rcases List.mem_append.mp hm with hm | hm
  · rcases h k t n hm with ⟨x, hx⟩ | ⟨y, hy, hout⟩
    · exact .inl ⟨x, List.mem_append_left _ hx⟩
    · exact .inr ⟨y, List.mem_append_left _ hy, hout⟩
  · rcases h' k t n hm with ⟨x, hx⟩ | ⟨y, hy, hout⟩
    · exact .inl ⟨x, List.mem_append_right _ hx⟩
    · exact .inr ⟨y, List.mem_append_right _ hy, hout⟩

theorem Tended.of_still (h : ∀ x ∈ o, x.isAttempt = false) : Tended o := by
  intro k t n hm
  cases h _ hm

theorem tended_at_once (k : Nat) (n : Encoded) (t : Target) (x : Delivery) :
    Tended (.attempted k t n :: ended k t n.event x) := by
  intro j u m hm
  rcases List.mem_cons.mp hm with hm | hm
  · cases hm
    exact .inl ⟨x, by simp [ended]⟩
  · cases isAttempt_ended _ _ _ _ _ hm

theorem tended_out {y : Output} (h : Out k n t y) : Tended [.attempted k t n, y] := by
  intro j u m hm
  rcases List.mem_cons.mp hm with hm | hm
  · cases hm
    exact .inr ⟨y, by simp, h⟩
  · rw [← List.mem_singleton.mp hm] at h
    cases h

theorem launch_tended (d : Dispatcher) (k : Nat) (n : Encoded) (t : Target) :
    Tended (launch d k n t).2 := by
  cases t with
  | broker =>
    simp only [launch, beginBroker]
    split
    · exact tended_at_once k n _ _
    · exact tended_out (.message _)
  | hook h =>
    simp only [launch, beginHook]
    split
    · exact tended_at_once k n _ _
    · exact tended_at_once k n _ _
    · rename_i r hr
      apply tended_out
      apply Out.request
      -- a request is made only where there is a URL for the event
      simp only [WebhookBackend.request] at hr
      split at hr
      · cases hr
      · obtain ⟨url, hurl, -⟩ := Option.map_eq_some_iff.mp (Except.ok.inj hr)
        rw [Option.isSome_iff_exists]
        exact ⟨url, hurl⟩

theorem run_tended (d : Dispatcher) (steps : List Step) : Tended (run d steps).2 := by
  apply collect_keeps (f := step) (P := fun _ o => Tended o) (o := [])
  · intro d' o s h
    exact h.append (step_made_of (fun _ _ => Tended.append) (fun _ => Tended.of_still)
      launch_tended d' s)
  · exact .of_still (List.forall_mem_nil _)

/-- The answer to what went out for a delivery. -/
inductive Replies (send : Nat) (n : Encoded) : Target → Step → Prop where
  | broker (a : Answer) : Replies send n .broker (.brokerAnswer send a)
  | hook (h : Hook) (result : Except Webhook.RequestError Nat)
      (wanted : (h.endpoints.url? n.event).isSome) :
      Replies send n (.hook h) (.hookAnswer send h.number result)

theorem lookup_isSome_append {es es' : List (Target × Delivery)}
    (h : (es.lookup t).isSome ∨ t ∈ es'.map Prod.fst) : ((es ++ es').lookup t).isSome := by
  rw [List.lookup_append, Option.isSome_or, Bool.or_eq_true]
  apply h.imp_right
  intro hm
  by_contra hnone
  rw [Bool.not_eq_true, Option.isSome_eq_false_iff, Option.isNone_iff_eq_none] at hnone
  exact lookup_none_iff.mp hnone hm

/-- Once it is answered, a delivery has ended. -/
theorem Fan.replied (h : Fan k n known hooks d o) (ht : t ∈ targets hooks) (hs : Replies k n t s) :
    ((endings k (o ++ (step d s).2)).lookup t).isSome := by
  rw [endings_append]
  apply lookup_isSome_append
  cases hl : (endings k o).lookup t with
  | some x => exact .inl rfl
  | none =>
    right
    -- the delivery is still waited for, so the send is in flight
    have hv : verdict known (targets hooks) (endings k o) = none := by
      rw [verdict, if_neg]
      intro hall
      have hsome := List.all_eq_true.mp hall t ht
      rw [hl] at hsome
      cases hsome
    obtain ⟨since, hkept⟩ := h.kept
    rw [hv, if_neg (by simp)] at hkept
    cases hs with
    | broker a => simp [step, brokerAnswer, hkept, recorded, hl]
    | hook g r wanted =>
      obtain ⟨url, hurl⟩ := Option.isSome_iff_exists.mp wanted
      obtain ⟨g', hg, he⟩ := List.mem_map.mp (List.mem_of_ne_of_mem (by simp) ht)
      cases he
      have hfound : (hooks.map fun h => (⟨h, (endings k o).lookup (.hook h)⟩ : HookAttempt)).find?
          (fun a => a.hook.number == g.number && a.outcome.isNone) = some ⟨g, none⟩ := by
        have hm : (⟨g, none⟩ : HookAttempt) ∈
            hooks.map fun h => (⟨h, (endings k o).lookup (.hook h)⟩ : HookAttempt) :=
          List.mem_map.mpr ⟨g, hg, by rw [hl]⟩
        have hd : ((hooks.map fun h => (⟨h, (endings k o).lookup (.hook h)⟩ : HookAttempt)).map
            (·.hook.number)).Nodup := by
          simpa [Function.comp_def] using h.distinct
        exact (find?_attempt hd hm).trans (if_pos rfl)
      simp [step, hookAnswer, hkept, recorded, hfound, hurl]

/-- A send that was refused, or whose deliveries have all ended. -/
def Ends (result : Sent) : Prop := result = .error .closed ∨ ∃ failures, result = report failures

theorem letIn_or_refused (h : .begin k n ∈ steps) :
    k ∈ letIn d steps ∨ .sent k (.error .closed) ∈ (run d steps).2 := by
  induction steps generalizing d with
  | nil => cases h
  | cons s steps ih =>
    rw [letIn, run_cons, List.mem_append, List.mem_append]
    rcases List.mem_cons.mp h with rfl | h
    · cases hc : d.closed with
      | true => exact .inr (.inl (by simp [step, begin, hc]))
      | false => exact .inl (.inl (by simp [Step.letIn?, hc]))
    · exact (ih h).imp .inr .inr

/-- A send that waits for its application has its call in flight. -/
theorem run_calling (hd : Distinct steps) (hk : .begin k n ∈ steps)
    (hw : (run (fresh broker ttl) steps).1.send? k = some ⟨k, n, .resolving⟩) :
    k ∈ (run (fresh broker ttl) steps).1.registry.calls.map (·.number) := by
  cases run_story broker ttl hd hk with
  | refused gone =>
    rw [gone] at hw
    cases hw
  | delivering result _ _ fan =>
    obtain ⟨since, he⟩ := fan.in_flight hw
    cases he
  | resolving _ quiet unresolved =>
    rcases letIn_or_refused (d := fresh broker ttl) hk with hlet | hsent
    · have hbegun : k ∈ Registry.begun (inner (fresh broker ttl) steps) :=
        mem_begun_inner.mpr (.inl hlet)
      rcases List.mem_append.mp ((run_calls broker ttl hd).mem_iff.mpr hbegun) with hret | hcall
      · obtain ⟨result, hm⟩ := returned_of_mem_returns hret
        exact absurd (mem_heard_resolved.mp hm) (unresolved result)
      · exact hcall
    · rw [← mem_results, quiet.results] at hsent
      cases hsent

/-- What a send is resolved to stays so, with all its deliveries. -/
theorem run_fan (hd : Distinct steps) (hk : .begin k n ∈ steps)
    (hr : .resolved k result ∈ (run (fresh broker ttl) steps).2)
    (hopen : result ≠ .error .closed) :
    Fan k n (knownOf result) (hooksOf result) (run (fresh broker ttl) steps).1
      (run (fresh broker ttl) steps).2 := by
  cases run_story broker ttl hd hk with
  | refused _ _ closed => exact absurd (closed result hr) hopen
  | resolving _ _ unresolved => exact absurd hr (unresolved result)
  | delivering result' _ resolved fan =>
    obtain rfl := resolved result hr
    exact fan

theorem run_append (d : Dispatcher) (xs ys : List Step) :
    run d (xs ++ ys) = ((run (run d xs).1 ys).1, (run d xs).2 ++ (run (run d xs).1 ys).2) :=
  collect_append step d xs ys

theorem mem_attempts : (t, n) ∈ attempts k o ↔ .attempted k t n ∈ o := by
  simp only [attempts, List.mem_filterMap]
  constructor
  · rintro ⟨x, hx, he⟩
    cases x with
    | attempted j u m =>
      obtain ⟨hj, hu⟩ := Option.ite_none_right_eq_some.mp he
      rw [hj] at hx
      cases hu
      exact hx
    | _ => cases he
  · intro h
    exact ⟨_, h, by simp⟩

theorem mem_endings {x : Delivery} : (t, x) ∈ endings k o ↔ .delivered k t x ∈ o := by
  simp only [endings, List.mem_filterMap]
  constructor
  · rintro ⟨y, hy, he⟩
    cases y with
    | delivered j u z =>
      obtain ⟨hj, hu⟩ := Option.ite_none_right_eq_some.mp he
      rw [hj] at hy
      cases hu
      exact hy
    | _ => cases he
  · intro h
    exact ⟨_, h, by simp⟩

theorem Story.once (h : Story k n d o) : (results k o).length ≤ 1 := by
  cases h with
  | refused _ _ _ _ _ ended => simp [ended]
  | resolving _ quiet => simp [quiet.results]
  | delivering _ _ _ fan =>
    rw [fan.results]
    cases verdict _ _ _ <;> simp

theorem Distinct.not_before (hd : Distinct (before ++ .begin k n :: after)) :
    k ∉ before.filterMap Step.begun? := by
  rw [← List.singleton_append, ← List.append_assoc] at hd
  exact hd.append_left.fresh rfl

/-- A delivery that has begun since the send did has ended when everything that went out for the
send is answered. -/
theorem run_delivered (hd : Distinct (before ++ .begin k n :: (during ++ after)))
    (hr : .resolved k result ∈ (run (fresh broker ttl) (before ++ .begin k n :: during)).2)
    (hopen : result ≠ .error .closed) (ht : t ∈ targets (hooksOf result))
    (hans : ∀ y ∈ (run (run (fresh broker ttl) before).1 (.begin k n :: during)).2,
      Out k n t y → ∃ s ∈ after, Replies k n t s) :
    ((endings k (run (fresh broker ttl) (before ++ .begin k n :: (during ++ after))).2).lookup
      t).isSome := by
  have hsplit : ∀ xs : List Step, before ++ .begin k n :: (during ++ xs) =
      (before ++ .begin k n :: during) ++ xs := by simp
  have hmem : ∀ xs : List Step, .begin k n ∈ before ++ .begin k n :: xs := by simp
  rw [hsplit] at hd
  have hfan := run_fan hd.append_left (hmem during) hr hopen
  -- the delivery has begun, and not before the send
  have hbegun : .attempted k t n ∈ (run (run (fresh broker ttl) before).1
      (.begin k n :: during)).2 := by
    have hm : (t, n) ∈ attempts k (run (fresh broker ttl) (before ++ .begin k n :: during)).2 := by
      rw [hfan.attempts]
      exact List.mem_map.mpr ⟨t, ht, rfl⟩
    obtain ⟨-, -, hquiet, -⟩ :=
      run_absent broker ttl hd.append_left.append_left hd.append_left.not_before
    rw [run_append, attempts_append, hquiet.attempts] at hm
    exact mem_attempts.mp hm
  rcases run_tended _ _ k t n hbegun with ⟨x, hx⟩ | ⟨y, hy, hout⟩
  · have hend : (t, x) ∈
        endings k (run (run (fresh broker ttl) before).1 (.begin k n :: during)).2 :=
      mem_endings.mpr hx
    rw [hsplit, run_append, endings_append, run_append, endings_append, List.append_assoc]
    apply lookup_isSome_append
    right
    rw [List.map_append]
    exact List.mem_append_left _ (List.mem_map_of_mem hend)
  · obtain ⟨s, hs, hreplies⟩ := hans y hy hout
    obtain ⟨xs, ys, rfl⟩ := List.append_of_mem hs
    have hfront : (before ++ .begin k n :: during) ++ (xs ++ s :: ys) =
        (before ++ .begin k n :: (during ++ xs)) ++ s :: ys := by simp
    rw [hfront] at hd
    have hearlier : .resolved k result ∈
        (run (fresh broker ttl) (before ++ .begin k n :: (during ++ xs))).2 := by
      rw [hsplit, run_append]
      exact List.mem_append_left _ hr
    have hnow := (run_fan hd.append_left (hmem _) hearlier hopen).replied ht hreplies
    rw [hsplit, hfront, run_append, run_cons, ← List.append_assoc, endings_append,
      List.lookup_append, Option.isSome_or, hnow]
    rfl

/-- A send whose call has returned, and for which everything that went out is answered, has
ended. -/
theorem run_ends (hd : Distinct (before ++ .begin k n :: (during ++ after)))
    (hidle : k ∉ (run (fresh broker ttl) (before ++ .begin k n :: during)).1.registry.calls.map
      (·.number))
    (hans : ∀ t, ∀ y ∈ (run (run (fresh broker ttl) before).1 (.begin k n :: during)).2,
      Out k n t y → ∃ s ∈ after, Replies k n t s) :
    ∃ result, results k (run (run (fresh broker ttl) before).1
      (.begin k n :: (during ++ after))).2 = [result] ∧ Ends result := by
  have hsplit : before ++ .begin k n :: (during ++ after) =
      (before ++ .begin k n :: during) ++ after := by simp
  have hmem : ∀ xs : List Step, .begin k n ∈ before ++ .begin k n :: xs := by simp
  have hearlier : Distinct (before ++ .begin k n :: during) := by
    rw [hsplit] at hd
    exact hd.append_left
  -- nothing has come of the send before it began
  have hsame : results k (run (run (fresh broker ttl) before).1
      (.begin k n :: (during ++ after))).2 =
      results k (run (fresh broker ttl) (before ++ .begin k n :: (during ++ after))).2 := by
    obtain ⟨-, -, hquiet, -⟩ := run_absent broker ttl hearlier.append_left hearlier.not_before
    rw [run_append, results_append, hquiet.results, List.nil_append]
  rw [hsame]
  cases run_story broker ttl hearlier (hmem during) with
  | resolving waits => exact absurd (run_calling hearlier (hmem during) waits) hidle
  | refused _ _ _ _ _ ended =>
    have honce := (run_story broker ttl hd (hmem _)).once
    rw [hsplit, run_append, results_append, ended] at honce ⊢
    have hrest : results k (run (run (fresh broker ttl) (before ++ .begin k n :: during)).1
        after).2 = [] := by
      simpa using honce
    rw [hrest]
    exact ⟨_, rfl, .inl rfl⟩
  | delivering result _ _ _ opened out =>
    have hlater : .resolved k result ∈
        (run (fresh broker ttl) (before ++ .begin k n :: (during ++ after))).2 := by
      rw [hsplit, run_append]
      exact List.mem_append_left _ out
    have hfan := run_fan hd (hmem _) hlater opened
    have hall : (targets (hooksOf result)).all fun t =>
        ((endings k (run (fresh broker ttl) (before ++ .begin k n :: (during ++ after))).2).lookup
          t).isSome := by
      apply List.all_eq_true.mpr
      intro t ht
      exact run_delivered hd out opened ht (hans t)
    rw [hfan.results, verdict, if_pos hall]
    exact ⟨_, rfl, .inr ⟨_, rfl⟩⟩

end Uplink.Dispatch
