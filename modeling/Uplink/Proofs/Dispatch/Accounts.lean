import Uplink.Proofs.Dispatch.Balance
import Uplink.Proofs.Dispatch.FanOut

namespace Uplink.Dispatch

open Backend Broker Notification Registry Time

variable {d : Dispatcher} {k : Nat} {n : Encoded} {o : List Output} {steps : List Step}
  {ttl : Option Duration} {broker : BrokerBackend} {result : Sent}

def refused : Sent → Bool
  | .error .closed => true
  | _ => false

/-- The send that passes the check with a step. -/
def Step.letIn? (d : Dispatcher) : Step → Option Nat
  | .begin send _ => if d.closed then none else some send
  | _ => none

/-- The sends that find the dispatcher open, in order. -/
def letIn (d : Dispatcher) : List Step → List Nat
  | [] => []
  | s :: steps => (s.letIn? d).toList ++ letIn (step d s).1 steps

/-- The sends that found the dispatcher open and were refused all the same. -/
def refusedLate (d : Dispatcher) (steps : List Step) : List Nat :=
  (letIn d steps).filter fun k => (results k (run d steps).2).any refused

/-- The sends whose lookup has failed. -/
def failedLookups (steps : List Step) (o : List Output) : List Nat :=
  (sendsOf steps).filter fun k => o.any fun
    | .resolved j result => lookupFailed result && j == k
    | _ => false

def brokerAttempts (k : Nat) (o : List Output) : Nat :=
  (attempts k o).countP fun a => !a.1.isHook

def brokerFailed (k : Nat) (o : List Output) : Bool :=
  (endings k o).any fun e => !e.1.isHook && failed e.2

/-- How many deliveries to webhooks have begun, for all sends. -/
def hookAttempts (o : List Output) : Nat :=
  o.countP fun
    | .attempted _ t _ => t.isHook
    | _ => false

/-- How many deliveries to webhooks have failed, for all sends. -/
def hookFailures (o : List Output) : Nat :=
  o.countP fun
    | .delivered _ t x => t.isHook && failed x
    | _ => false

theorem letIn_sublist (d : Dispatcher) (steps : List Step) :
    (letIn d steps).Sublist (sendsOf steps) := by
  induction steps generalizing d with
  | nil => exact .slnil
  | cons s steps ih =>
    rw [← List.singleton_append, sendsOf_append]
    refine List.Sublist.append ?_ (ih _)
    cases s with
    | begin k n =>
      simp only [Step.letIn?]
      split
      · exact List.nil_sublist _
      · exact .refl _
    | _ => exact List.nil_sublist _

/-- The calls of a run are those of the sends that are let in, and its own. -/
theorem mem_begun_inner : k ∈ Registry.begun (inner d steps) ↔
    k ∈ letIn d steps ∨ ∃ a, .registry (.begin k a) ∈ steps := by
  induction steps generalizing d with
  | nil => simp [inner, letIn, Registry.begun]
  | cons s steps ih =>
    have hfirst : k ∈ Registry.begun (s.inner? d).toList ↔
        s.letIn? d = some k ∨ ∃ a, .registry (.begin k a) = s := by
      cases s with
      | begin j n =>
        cases hc : d.closed <;>
          simp [Step.inner?, Step.letIn?, hc, Registry.begun, Registry.Step.begun?, eq_comm]
      | registry t =>
        cases t <;> simp [Step.inner?, Step.letIn?, Registry.begun, Registry.Step.begun?, eq_comm]
      | beginClose c =>
        cases hc : d.closed <;>
          simp [Step.inner?, Step.letIn?, hc, Registry.begun, Registry.Step.begun?]
      | _ => simp [Step.inner?, Step.letIn?, Registry.begun]
    have hbegun : Registry.begun (inner d (s :: steps)) =
        Registry.begun (s.inner? d).toList ++ Registry.begun (inner (step d s).1 steps) :=
      List.filterMap_append
    rw [hbegun, letIn, List.mem_append, List.mem_append, hfirst, ih, Option.mem_toList]
    simp only [List.mem_cons, exists_or]
    tauto

/-- How a send has ended: it was refused, and then nothing was made of it, or all its deliveries
have ended, and the send as they did. -/
inductive Fate (send : Nat) (n : Encoded) (d : Dispatcher) (o : List Output) : Prop where
  | refused (idle : send ∉ d.registry.calls.map (·.number))
      (closed : ∀ result, .resolved send result ∈ o → result = .error .closed)
      (unattempted : attempts send o = []) (unended : endings send o = [])
      (ended : results send o = [.error .closed])
  | delivered (result : Resolved) (opened : result ≠ .error .closed)
      (resolved : ∀ result', .resolved send result' ∈ o → result' = result)
      (fan : Fan send n (knownOf result) (hooksOf result) d o)
      (all : ∀ t ∈ targets (hooksOf result), ∃ x, (endings send o).lookup t = some x)
      (ended : results send o =
        [report (failuresOf (knownOf result) (targets (hooksOf result)) (endings send o))])

/-- Where nothing is in flight, every send that has begun has ended. -/
theorem run_fate (hd : Distinct steps) (hidle : (run (fresh broker ttl) steps).1.sends = [])
    (hk : .begin k n ∈ steps) :
    Fate k n (run (fresh broker ttl) steps).1 (run (fresh broker ttl) steps).2 := by
  have hgone : (run (fresh broker ttl) steps).1.send? k = none := by
    rw [Dispatcher.send?, hidle]
    rfl
  cases run_story broker ttl hd hk with
  | refused _ idle closed unattempted unended ended =>
    exact .refused idle closed unattempted unended ended
  | resolving waits _ _ =>
    rw [hgone] at waits
    cases waits
  | delivering result _ resolved fan opened _ =>
    obtain ⟨since, hkept⟩ := fan.kept
    have hresults := fan.results
    rw [hgone] at hkept
    unfold verdict at hkept hresults
    split at hkept
    · rename_i hall
      split at hresults
      · rename_i hall
        refine .delivered result opened resolved fan (fun t ht => ?_) hresults
        exact Option.isSome_iff_exists.mp (List.all_eq_true.mp hall t ht)
      · rename_i hnot
        simp [hnot] at hall
    · cases hkept

/-- Every call of a run has returned or is in flight. -/
theorem run_calls (broker : BrokerBackend) (ttl : Option Duration) (hd : Distinct steps) :
    (returns (heard (run (fresh broker ttl) steps).2) ++
      (run (fresh broker ttl) steps).1.registry.calls.map (·.number)).Perm
        (Registry.begun (inner (fresh broker ttl) steps)) := by
  obtain ⟨hr, hh⟩ := Prod.mk.inj (run_inner (fresh broker ttl) steps)
  rw [hr, hh]
  exact (run_numbered ttl (hd.inner (fresh broker ttl))).conserved

theorem run_returns_nodup (broker : BrokerBackend) (ttl : Option Duration) (hd : Distinct steps) :
    (returns (heard (run (fresh broker ttl) steps).2)).Nodup :=
  (List.nodup_append.mp
    ((run_calls broker ttl hd).nodup_iff.mpr (hd.inner (fresh broker ttl)))).1

/-- The sends that are refused late are those whose call the registry refuses. -/
theorem mem_refusedLate (hd : Distinct steps)
    (hidle : (run (fresh broker ttl) steps).1.sends = []) :
    k ∈ refusedLate (fresh broker ttl) steps ↔
      k ∈ sendsOf steps ∧ .resolved k (.error .closed) ∈ (run (fresh broker ttl) steps).2 := by
  have hcalls := run_calls broker ttl hd
  unfold refusedLate
  rw [List.mem_filter]
  constructor
  · rintro ⟨hlet, hrefused⟩
    have hsend := (letIn_sublist _ _).subset hlet
    obtain ⟨n, hn⟩ := mem_sendsOf.mp hsend
    refine ⟨hsend, ?_⟩
    cases run_fate hd hidle hn with
    | refused idle closed _ _ _ =>
      have hbegun : k ∈ Registry.begun (inner (fresh broker ttl) steps) :=
        mem_begun_inner.mpr (.inl hlet)
      rcases List.mem_append.mp (hcalls.mem_iff.mpr hbegun) with hret | hcall
      · obtain ⟨result, hm⟩ := returned_of_mem_returns hret
        rw [mem_heard_resolved] at hm
        exact closed result hm ▸ hm
      · exact absurd hcall idle
    | delivered result _ _ _ _ ended =>
      rw [ended] at hrefused
      generalize failuresOf _ _ _ = fs at hrefused
      cases fs <;> cases hrefused
  · rintro ⟨hsend, hresolved⟩
    obtain ⟨n, hn⟩ := mem_sendsOf.mp hsend
    have hbegun : k ∈ Registry.begun (inner (fresh broker ttl) steps) :=
      hcalls.subset (List.mem_append_left _
        (mem_returns_of_returned (mem_heard_resolved.mpr hresolved)))
    refine ⟨(mem_begun_inner.mp hbegun).resolve_right fun ⟨a, ha⟩ => hd.apart_call hsend ha, ?_⟩
    cases run_fate hd hidle hn with
    | refused _ _ _ _ ended =>
      rw [ended]
      rfl
    | delivered result opened resolved _ _ _ => exact absurd (resolved _ hresolved).symm opened

theorem Meter.waived_eq_zero {m : Meter} (h : m ≠ .admitted) (own : List Nat) (o : List Output) :
    m.waived own o = 0 := by
  refine List.countP_eq_zero.mpr fun x _ => Bool.eq_false_iff.mp ?_
  cases m with
  | admitted => exact absurd rfl h
  | _ => cases x <;> rfl

/-- But for the sends that are let in, a statistic is what comes out. -/
theorem run_counted (hd : Distinct steps) (hidle : (run (fresh broker ttl) steps).1.sends = [])
    {m : Meter} (h : m ≠ .admitted) :
    m.paid (run (fresh broker ttl) steps).1.stats =
      m.count (sendsOf steps) (run (fresh broker ttl) steps).2 := by
  rw [← run_paid broker ttl hd hidle m, m.waived_eq_zero h, Nat.add_zero]

theorem countP_ends (p : Sent → Bool) (o : List Output) :
    (ends o).countP (fun e => p e.2) = o.countP fun
      | .sent _ result => p result
      | _ => false := by
  rw [ends, List.countP_filterMap]
  refine List.countP_congr fun x _ => ?_
  cases x <;> simp

/-- The send whose call returns like this. -/
def resolved? (p : Resolved → Bool) (own : List Nat) : Output → Option Nat
  | .resolved k result => if p result && own.contains k then some k else none
  | _ => none

theorem resolved?_eq_some {p : Resolved → Bool} {own : List Nat} {x : Output} :
    resolved? p own x = some k ↔ k ∈ own ∧ ∃ result, p result = true ∧ x = .resolved k result := by
  cases x with
  | resolved j result =>
    simp only [resolved?, Bool.and_eq_true, List.contains_iff_mem, Option.ite_none_right_eq_some,
      Option.some.injEq, Output.resolved.injEq]
    constructor
    · rintro ⟨⟨hp, hj⟩, rfl⟩
      exact ⟨hj, result, hp, rfl, rfl⟩
    · rintro ⟨hk, _, hp, rfl, rfl⟩
      exact ⟨⟨hp, hk⟩, rfl⟩
  | _ => simp [resolved?]

/-- As calls return once, there are as many returns of a kind as there are sends that have them. -/
theorem count_resolved (hd : Distinct steps) (p : Resolved → Bool) {ks : List Nat}
    (hks : ks.Nodup) (h : ∀ k, k ∈ ks ↔ k ∈ sendsOf steps ∧
      ∃ result, p result = true ∧ .resolved k result ∈ (run (fresh broker ttl) steps).2) :
    (run (fresh broker ttl) steps).2.countP (fun x => (resolved? p (sendsOf steps) x).isSome) =
      ks.length := by
  have hsub : ((run (fresh broker ttl) steps).2.filterMap (resolved? p (sendsOf steps))).Sublist
      (returns (heard (run (fresh broker ttl) steps).2)) := by
    rw [returns, heard, List.filterMap_filterMap]
    refine filterMap_sublist (fun x k hx => ?_) _
    obtain ⟨-, result, -, rfl⟩ := resolved?_eq_some.mp hx
    rfl
  have hnodup := hsub.nodup (run_returns_nodup broker ttl hd)
  rw [← List.length_filterMap_eq_countP]
  refine ((List.perm_ext_iff_of_nodup hnodup hks).mpr fun k => ?_).length_eq
  rw [h, List.mem_filterMap]
  constructor
  · rintro ⟨x, hx, hk⟩
    obtain ⟨hs, result, hp, rfl⟩ := resolved?_eq_some.mp hk
    exact ⟨hs, result, hp, hx⟩
  · rintro ⟨hs, result, hp, hx⟩
    exact ⟨_, hx, resolved?_eq_some.mpr ⟨hs, result, hp, rfl⟩⟩

theorem waived_refusedLate (hd : Distinct steps)
    (hidle : (run (fresh broker ttl) steps).1.sends = []) :
    Meter.waived .admitted (sendsOf steps) (run (fresh broker ttl) steps).2 =
      (refusedLate (fresh broker ttl) steps).length := by
  have hsame : Meter.waives .admitted (sendsOf steps) =
      fun x => (resolved? lookupRefused (sendsOf steps) x).isSome := by
    funext x
    cases x with
    | resolved j result =>
      simp only [Meter.waives, resolved?]
      split <;> simp_all
    | _ => rfl
  rw [Meter.waived, hsame]
  refine count_resolved hd lookupRefused
    ((hd.sends.sublist (letIn_sublist _ _)).sublist List.filter_sublist) fun k => ?_
  rw [mem_refusedLate hd hidle]
  refine and_congr_right fun _ => ⟨fun h => ⟨_, rfl, h⟩, ?_⟩
  rintro ⟨result, hr, h⟩
  rcases result with (x | _) | e
  · cases hr
  · exact h
  · cases hr

theorem count_failedLookups (hd : Distinct steps) :
    Meter.count .unresolved (sendsOf steps) (run (fresh broker ttl) steps).2 =
      (failedLookups steps (run (fresh broker ttl) steps).2).length := by
  have hsame : Meter.sees .unresolved (sendsOf steps) =
      fun x => (resolved? lookupFailed (sendsOf steps) x).isSome := by
    funext x
    cases x with
    | resolved j result =>
      simp only [Meter.sees, resolved?]
      split <;> simp_all
    | _ => rfl
  rw [Meter.count, hsame]
  refine count_resolved hd lookupFailed (hd.sends.sublist List.filter_sublist) fun k => ?_
  rw [failedLookups, List.mem_filter, List.any_eq_true]
  refine and_congr_right fun _ => ⟨?_, ?_⟩
  · rintro ⟨x, hx, hk⟩
    cases x with
    | resolved j result =>
      rw [Bool.and_eq_true, beq_iff_eq] at hk
      exact ⟨result, hk.1, hk.2 ▸ hx⟩
    | _ => cases hk
  · rintro ⟨result, hr, hx⟩
    exact ⟨_, hx, by simp [hr]⟩

/-- The send whose delivery to the broker fails. -/
def failing? : Output → Option Nat
  | .delivered k t x => if !t.isHook && failed x then some k else none
  | _ => none

/-- How often the broker fails a send. -/
theorem count_failing (k : Nat) (o : List Output) :
    (o.filterMap failing?).count k = (endings k o).countP fun e => !e.1.isHook && failed e.2 := by
  rw [List.count, endings, List.countP_filterMap, List.countP_filterMap]
  refine List.countP_congr fun x _ => ?_
  cases x with
  | delivered j t y =>
    by_cases hj : j = k
    · by_cases hf : (!t.isHook && failed y) = true <;> simp [failing?, hj, hf]
    · by_cases hf : (!t.isHook && failed y) = true <;> simp [failing?, hj, hf]
  | _ => simp [failing?]

theorem countP_broker_le (es : List (Target × Delivery)) (h : (es.map Prod.fst).Nodup) :
    es.countP (fun e => !e.1.isHook && failed e.2) ≤ 1 := by
  have hle : es.countP (fun e => !e.1.isHook && failed e.2) ≤ (es.map Prod.fst).count .broker := by
    rw [List.count, List.countP_map]
    refine List.countP_mono_left fun e _ he => ?_
    obtain ⟨t, x⟩ := e
    cases t with
    | broker => rfl
    | hook h => cases he
  exact Nat.le_trans hle (List.nodup_iff_count_le_one.mp h .broker)

/-- A send whose delivery to the broker has failed reports failures. -/
theorem report_of_failing {known : List BackendFailure} {hooks : List Hook}
    {es : List (Target × Delivery)} {x : Delivery} (h : es.lookup .broker = some x)
    (hx : failed x = true) :
    undelivered (report (failuresOf known (targets hooks) es)) = true := by
  obtain ⟨f, hf⟩ : ∃ f, ofDelivery BrokerBackend.name x = some f := by
    cases x with
    | ok u => cases hx
    | error e => exact ⟨_, rfl⟩
  have hm : f ∈ failuresOf known (targets hooks) es := by
    refine List.mem_append_right _ (List.mem_filterMap.mpr ⟨.broker, List.mem_cons_self, ?_⟩)
    rw [h]
    exact hf
  cases hfs : failuresOf known (targets hooks) es with
  | nil => simp [hfs] at hm
  | cons g gs => rfl

theorem mem_failing : k ∈ o.filterMap failing? ↔ brokerFailed k o = true := by
  rw [← List.count_pos_iff, count_failing, List.countP_pos_iff, brokerFailed, List.any_eq_true]

theorem about?_of_failing {x : Output} (h : failing? x = some k) : x.about? = some k := by
  cases x with
  | delivered j t y =>
    simp only [failing?] at h
    split at h
    · exact h
    · cases h
  | _ => cases h

/-- Nothing is delivered twice to one target. -/
theorem Fate.once (h : Fate k n d o) : ((endings k o).map Prod.fst).Nodup := by
  cases h with
  | refused _ _ _ unended =>
    rw [unended]
    exact List.nodup_nil
  | delivered _ _ _ fan => exact fan.once

/-- A send that the broker has failed reports that. -/
theorem Fate.undelivered_of_failed (h : Fate k n d o) (hr : result ∈ results k o)
    (hf : brokerFailed k o = true) : undelivered result = true := by
  obtain ⟨⟨t, x⟩, hx, hfailed⟩ := List.any_eq_true.mp hf
  cases h with
  | refused _ _ _ unended =>
    rw [unended] at hx
    cases hx
  | delivered _ _ _ fan _ ended =>
    rw [ended, List.mem_singleton] at hr
    rw [Bool.and_eq_true] at hfailed
    cases t with
    | broker =>
      rw [hr]
      exact report_of_failing (lookup_of_mem fan.once hx) hfailed.2
    | hook h => cases hfailed.1

theorem run_failing (hd : Distinct steps)
    (hk : k ∈ (run (fresh broker ttl) steps).2.filterMap failing?) : k ∈ sendsOf steps := by
  obtain ⟨x, hx, hk⟩ := List.mem_filterMap.mp hk
  exact run_about hd hx (about?_of_failing hk)

/-- The broker fails no send twice. -/
theorem run_failing_nodup (hd : Distinct steps)
    (hidle : (run (fresh broker ttl) steps).1.sends = []) :
    ((run (fresh broker ttl) steps).2.filterMap failing?).Nodup := by
  refine List.nodup_iff_count_le_one.mpr fun k => ?_
  by_cases hk : k ∈ (run (fresh broker ttl) steps).2.filterMap failing?
  · obtain ⟨n, hn⟩ := mem_sendsOf.mp (run_failing hd hk)
    rw [count_failing]
    exact countP_broker_le _ (run_fate hd hidle hn).once
  · rw [List.count_eq_zero_of_not_mem hk]
    exact Nat.zero_le 1

/-- The failures of the broker are those of the sends that report them. -/
theorem count_brokerFailures (hd : Distinct steps)
    (hidle : (run (fresh broker ttl) steps).1.sends = []) :
    Meter.count (.broker .failed) (sendsOf steps) (run (fresh broker ttl) steps).2 =
      (ends (run (fresh broker ttl) steps).2).countP fun e =>
        undelivered e.2 && brokerFailed e.1 (run (fresh broker ttl) steps).2 := by
  have hsame : Meter.sees (.broker .failed) (sendsOf steps) = fun x => (failing? x).isSome := by
    funext x
    cases x with
    | delivered j t y =>
      cases t <;> by_cases hf : failed y = true <;>
        simp [Meter.sees, Meter.reads, Stage.atEnd, Target.isHook, failing?, hf]
    | attempted j t m => cases t <;> rfl
    | _ => rfl
  have hends := run_ended hd hidle
  rw [Meter.count, hsame, ← List.length_filterMap_eq_countP, List.countP_eq_length_filter,
    ← List.length_map (f := Prod.fst)]
  refine ((List.perm_ext_iff_of_nodup (run_failing_nodup hd hidle) ?_).mpr fun k => ?_).length_eq
  · exact (hends.nodup_iff.mpr hd.sends).sublist (List.filter_sublist.map Prod.fst)
  constructor
  · intro hk
    have hsent := run_failing hd hk
    have hfailed := mem_failing.mp hk
    obtain ⟨n, hn⟩ := mem_sendsOf.mp hsent
    obtain ⟨⟨j, result⟩, hm, rfl⟩ := List.mem_map.mp (hends.mem_iff.mpr hsent)
    refine List.mem_map.mpr ⟨(j, result), List.mem_filter.mpr ⟨hm, ?_⟩, rfl⟩
    rw [mem_ends, ← mem_results] at hm
    rw [Bool.and_eq_true]
    exact ⟨(run_fate hd hidle hn).undelivered_of_failed hm hfailed, hfailed⟩
  · intro hk
    obtain ⟨⟨j, result⟩, hm, rfl⟩ := List.mem_map.mp hk
    exact mem_failing.mpr (Bool.and_eq_true _ _ ▸ (List.mem_filter.mp hm).2).2

/-- What is not in flight when a close begins does not come into flight any more. -/
theorem absent_after_close {c : Nat} {before after : List Step}
    (hd : Distinct (before ++ .beginClose c :: after))
    (hk : k ∉ (run (fresh broker ttl) before).1.registry.calls.map (·.number)) :
    k ∉ (run (fresh broker ttl) (before ++ .beginClose c :: after)).1.registry.calls.map
      (·.number) := by
  induction after using List.reverseRecOn with
  | nil =>
    rw [run_snoc]
    exact (step_absent (run_orderly hd) hk nofun).2
  | append_singleton after s ih =>
    rw [← List.cons_append, ← List.append_assoc] at hd ⊢
    have hgone := ih hd.append_left
    have hdown : Down (run (fresh broker ttl) (before ++ .beginClose c :: after)).1 :=
      run_down broker ttl (c := c) (by simp)
    rw [run_snoc]
    cases hi : s.inner? (run (fresh broker ttl) (before ++ .beginClose c :: after)).1 with
    | none =>
      rw [(step_of_inner_none hi).1]
      exact hgone
    | some t =>
      rw [(step_of_inner_some hi).1]
      exact step_calls_closed hdown.registry hgone t

/-- Where only the dispatcher closes its registry, a send that is refused late waited for its lookup
when a close began. -/
theorem waiting_at_close (hd : Distinct steps) (hown : .registry .close ∉ steps)
    (hk : k ∈ sendsOf steps)
    (hr : .resolved k (.error .closed) ∈ (run (fresh broker ttl) steps).2) :
    ∃ n before c after, steps = before ++ .beginClose c :: after ∧
      (run (fresh broker ttl) before).1.send? k = some ⟨k, n, .resolving⟩ := by
  obtain ⟨before, s, after, rfl, hs⟩ := mem_run hr
  have hsplit : before ++ s :: after = before ++ [s] ++ after := by simp
  have hd' : Distinct (before ++ [s]) := (hsplit ▸ hd).append_left
  obtain ⟨t, hi, ht⟩ := heard_step (mem_heard_resolved.mpr hs)
  have hclosed := closed_of_refused ht
  have hclose : .close ∈ inner (fresh broker ttl) before := by
    by_contra hno
    rw [run_registry, (open_before_close ttl hno).1] at hclosed
    cases hclosed
  obtain ⟨c, hc⟩ := (close_mem_inner hclose).resolve_right
    fun h => hown (List.mem_append_left _ h)
  have hdown := run_down broker ttl hc
  have hcall : k ∈ (run (fresh broker ttl) before).1.registry.calls.map (·.number) := by
    by_contra hno
    have hb : s.begun? = some k :=
      (run_returning hd' hi (mem_returns_of_returned ht)).resolve_left hno
    cases s with
    | begin j n => simp [Step.inner?, hdown.closed] at hi
    | registry t =>
      cases t with
      | begin j a =>
        cases hb
        exact hd.apart_call (a := a) hk (by simp)
      | _ => cases hb
    | _ => cases hb
  obtain ⟨first, later, rfl⟩ := List.append_of_mem hc
  have hcall' : k ∈ (run (fresh broker ttl) first).1.registry.calls.map (·.number) := by
    by_contra hno
    exact absent_after_close hd'.append_left hno hcall
  have hd'' : Distinct first := hd'.append_left.append_left
  obtain ⟨n, hn⟩ : ∃ n, .begin k n ∈ first := by
    refine (mem_begun.mp (run_called hd'' hcall')).resolve_right ?_
    rintro ⟨a, ha⟩
    exact hd.apart_call (a := a) hk (by simp [ha])
  exact ⟨n, first, c, later ++ s :: after, by simp,
    (run_story broker ttl hd'' hn).calling hcall'⟩

/-- The statistics of a dispatcher that has done these steps, accounted for by what came out. -/
structure Accounted (d : Dispatcher) (steps : List Step) (s : Stats) (o : List Output) : Prop where
  /-- Every send has ended, once. -/
  ended : ((ends o).map Prod.fst).Perm (sendsOf steps)
  sent : s.totalSent = s.totalDelivered + s.totalFailed + (refusedLate d steps).length
  delivered : s.totalDelivered = (ends o).countP fun e => succeeded e.2
  failed : s.totalFailed = (ends o).countP fun e => undelivered e.2
  hooks : s.integrationDeliveries = hookAttempts o
  hookFailures : s.integrationFailures = hookFailures o
  broker : s.brokerFailures = (ends o).countP fun e => undelivered e.2 && brokerFailed e.1 o
  storage : s.storageFailures = (failedLookups steps o).length
  /-- A send that was not refused was handed to the broker once. -/
  once : ∀ k result, (k, result) ∈ ends o → refused result = false → brokerAttempts k o = 1
  nothing : ∀ k result, (k, result) ∈ ends o → refused result = true → attempts k o = []
  /-- Every delivery that has begun has ended, once. -/
  completed : ∀ k ∈ sendsOf steps,
    ((endings k o).map Prod.fst).Perm ((attempts k o).map Prod.fst)
  /-- Where only the dispatcher closes its registry, sends are refused late because a close begins
  while they wait for their lookup. -/
  late : .registry .close ∉ steps → ∀ k ∈ refusedLate d steps,
    ∃ n before c after, steps = before ++ .beginClose c :: after ∧
      (run d before).1.send? k = some ⟨k, n, .resolving⟩

theorem count_hookAttempts (own : List Nat) (o : List Output) :
    Meter.count (.hooks .begun) own o = hookAttempts o := by
  refine List.countP_congr fun x _ => ?_
  cases x with
  | attempted j t m => cases t <;> simp [Meter.sees, Meter.reads, Target.isHook, Stage.atBegin]
  | delivered j t y => cases t <;> simp [Meter.sees, Meter.reads, Target.isHook, Stage.atEnd]
  | _ => rfl

theorem count_hookFailures (own : List Nat) (o : List Output) :
    Meter.count (.hooks .failed) own o = hookFailures o := by
  refine List.countP_congr fun x _ => ?_
  cases x with
  | attempted j t m => cases t <;> simp [Meter.sees, Meter.reads, Target.isHook, Stage.atBegin]
  | delivered j t y => cases t <;> simp [Meter.sees, Meter.reads, Target.isHook, Stage.atEnd]
  | _ => rfl

theorem count_successes (own : List Nat) (o : List Output) :
    Meter.count .successes own o = (ends o).countP fun e => succeeded e.2 := by
  rw [countP_ends]
  exact List.countP_congr fun x _ => by cases x <;> rfl

theorem count_failures (own : List Nat) (o : List Output) :
    Meter.count .failures own o = (ends o).countP fun e => undelivered e.2 := by
  rw [countP_ends]
  exact List.countP_congr fun x _ => by cases x <;> rfl

theorem brokerAttempts_targets (hooks : List Hook) :
    ((targets hooks).map (·, n)).countP (fun a => !a.1.isHook) = 1 := by
  simp [targets, List.countP_map, Target.isHook, Function.comp_def]

/-- In every state with no send in flight, whatever sends, closes, lookups and answers came before
and in whatever order, the statistics account for every send. -/
theorem statistics_account (broker : BrokerBackend) (ttl : Option Duration) (steps : List Step)
    (hd : Distinct steps) (hidle : (run (fresh broker ttl) steps).1.sends = []) :
    Accounted (fresh broker ttl) steps (run (fresh broker ttl) steps).1.stats
      (run (fresh broker ttl) steps).2 := by
  have hends := run_ended hd hidle
  have hcounted := fun (m : Meter) (h : m ≠ .admitted) => run_counted hd hidle h
  have hfate : ∀ k result, (k, result) ∈ ends (run (fresh broker ttl) steps).2 →
      ∃ n, Fate k n (run (fresh broker ttl) steps).1 (run (fresh broker ttl) steps).2 := by
    intro k result h
    obtain ⟨n, hn⟩ := mem_sendsOf.mp (hends.subset (List.mem_map_of_mem h))
    exact ⟨n, run_fate hd hidle hn⟩
  refine ⟨hends, ?_, ?_, ?_, ?_, ?_, ?_, ?_, fun k result h hnot => ?_, fun k result h hr => ?_,
    fun k hk => ?_, fun hown k hk => ?_⟩
  · have hsent := hcounted .notified (by simp)
    have hlet := run_paid broker ttl hd hidle .admitted
    rw [waived_refusedLate hd hidle] at hlet
    exact hsent.trans hlet.symm
  · rw [← count_successes (sendsOf steps)]
    exact hcounted .successes (by simp)
  · rw [← count_failures (sendsOf steps)]
    exact hcounted .failures (by simp)
  · rw [← count_hookAttempts (sendsOf steps)]
    exact hcounted (.hooks .begun) (by simp)
  · rw [← count_hookFailures (sendsOf steps)]
    exact hcounted (.hooks .failed) (by simp)
  · rw [← count_brokerFailures hd hidle]
    exact hcounted (.broker .failed) (by simp)
  · rw [← count_failedLookups hd]
    exact hcounted .unresolved (by simp)
  · obtain ⟨n, hf⟩ := hfate k result h
    rw [mem_ends, ← mem_results] at h
    cases hf with
    | refused _ _ _ _ ended =>
      rw [ended, List.mem_singleton] at h
      rw [h] at hnot
      cases hnot
    | delivered _ _ _ fan _ _ =>
      rw [brokerAttempts, fan.attempts]
      exact brokerAttempts_targets _
  · obtain ⟨n, hf⟩ := hfate k result h
    rw [mem_ends, ← mem_results] at h
    cases hf with
    | refused _ _ unattempted _ _ => exact unattempted
    | delivered _ _ _ _ _ ended =>
      rw [ended, List.mem_singleton] at h
      generalize failuresOf _ _ _ = fs at h
      rw [h] at hr
      cases fs <;> cases hr
  · obtain ⟨n, hn⟩ := mem_sendsOf.mp hk
    cases run_fate hd hidle hn with
    | refused _ _ unattempted unended _ =>
      rw [unattempted, unended]
      exact .refl _
    | delivered result _ _ fan all _ =>
      have htargets : (attempts k (run (fresh broker ttl) steps).2).map Prod.fst =
          targets (hooksOf result) := by
        rw [fan.attempts, List.map_map]
        exact List.map_id _
      rw [htargets]
      refine (List.perm_ext_iff_of_nodup fan.once (targets_nodup fan.distinct)).mpr fun t => ?_
      refine ⟨fan.own t, fun ht => ?_⟩
      obtain ⟨x, hx⟩ := all t ht
      obtain ⟨pre, post, he, -⟩ := List.lookup_eq_some_iff.mp hx
      rw [he]
      simp
  · obtain ⟨hsend, hr⟩ := (mem_refusedLate hd hidle).mp hk
    exact waiting_at_close hd hown hsend hr

/-- After a send that fails, a close begins while another waits for its lookup. -/
def cutShort : List Step :=
  mixed ++ [.begin 1 ⟨9, .zero 8, .join, "null"⟩, .beginClose 0, .registry (.answer 1 (.ok []))]

theorem statistics_account_overtaken :
    Distinct cutShort ∧ (run (fresh (.new .atMostOnce ⟨5⟩) none) cutShort).1.sends = [] ∧
      Accounted (fresh (.new .atMostOnce ⟨5⟩) none) cutShort
        (run (fresh (.new .atMostOnce ⟨5⟩) none) cutShort).1.stats
        (run (fresh (.new .atMostOnce ⟨5⟩) none) cutShort).2 ∧
      (run (fresh (.new .atMostOnce ⟨5⟩) none) cutShort).1.stats = ⟨2, 0, 1, 1, 2, 0, 0⟩ ∧
      refusedLate (fresh (.new .atMostOnce ⟨5⟩) none) cutShort = [1] := by
  have hd : Distinct cutShort := by decide
  have hidle : (run (fresh (.new .atMostOnce ⟨5⟩) none) cutShort).1.sends = [] := rfl
  exact ⟨hd, hidle, statistics_account _ none cutShort hd hidle, rfl, rfl⟩

end Uplink.Dispatch
