import Uplink.Broker.Tracker
import Uplink.Proofs.Collect

namespace Uplink.Broker.Tracker

variable {t : Tracker} {s : Step} {q : Qos} {p k : Nat} {w : Waiter} {rest : List Waiter}
  {steps : List Step}

/-- Does the steps, beginning with nothing tracked. -/
def run (steps : List Step) : Tracker × List Completion := collect step empty steps

theorem run_snoc (steps : List Step) (s : Step) :
    run (steps ++ [s]) =
      (((run steps).1.step s).1, (run steps).2 ++ ((run steps).1.step s).2) :=
  collect_snoc step empty steps s

/-- The step by which the broker acknowledges a packet of some quality of service. -/
def acknowledgement : Qos → Nat → Option Step
  | .atMostOnce, _ => none
  | .atLeastOnce, p => some (.acknowledged p)
  | .exactlyOnce, p => some (.released p)

theorem exists_acknowledgement (p : Nat) (h : q ≠ .atMostOnce) :
    ∃ s, acknowledgement q p = some s := by
  cases q with
  | atMostOnce => exact absurd rfl h
  | atLeastOnce => exact ⟨.acknowledged p, rfl⟩
  | exactlyOnce => exact ⟨.released p, rfl⟩

theorem step_acknowledgement (t : Tracker) (h : acknowledgement q p = some s) :
    t.step s = t.acknowledge p q := by
  cases q <;> cases h <;> rfl

/-- A packet that is written again, after the connection on which it was written was lost. -/
def Repeats (t : Tracker) (packet : Nat) : Prop := packet ≠ 0 ∧ packet ∈ t.abandoned

instance (t : Tracker) (packet : Nat) : Decidable (t.Repeats packet) :=
  inferInstanceAs (Decidable (packet ≠ 0 ∧ packet ∈ t.abandoned))

/-- What becomes of a tracker in a step, and which requests end by it. -/
inductive Change (t : Tracker) : Step → Tracker × List Completion → Prop where
  | tracked (q : Qos) : Change t (.track q none) (t.track q, [])
  | refused (q : Qos) (e : PublishError) : Change t (.track q (some e)) (t, [])
  | repeated (p : Nat) (again : t.Repeats p) :
      Change t (.written p) ({ t with abandoned := t.abandoned.filter (· != p) }, [])
  | unasked (p : Nat) (first : ¬ t.Repeats p) (queue : t.queued = []) :
      Change t (.written p) (t, [])
  | finished (p : Nat) (w : Waiter) (rest : List Waiter) (first : ¬ t.Repeats p)
      (queue : t.queued = w :: rest) (level : w.qos = .atMostOnce) :
      Change t (.written p) ({ t with queued := rest }, complete w .done)
  | passed (p : Nat) (w : Waiter) (rest : List Waiter) (first : ¬ t.Repeats p)
      (queue : t.queued = w :: rest) (level : w.qos ≠ .atMostOnce) (gone : w.live = false) :
      Change t (.written p) ({ t with queued := rest }, [])
  | registered (p : Nat) (w : Waiter) (rest : List Waiter) (first : ¬ t.Repeats p)
      (queue : t.queued = w :: rest) (level : w.qos ≠ .atMostOnce) (live : w.live = true) :
      Change t (.written p)
        ({ t with queued := rest, inflight := t.without p ++ [(p, w)] },
          (t.held p).flatMap (complete · .dropped))
  | acknowledged (s : Step) (p : Nat) (q : Qos) (kind : acknowledgement q p = some s)
      (waited : ∃ w ∈ t.held p, w.qos = q) :
      Change t s
        ({ t with abandoned := t.abandoned.filter (· != p), inflight := t.without p },
          (t.held p).flatMap (complete · .done))
  | mistaken (s : Step) (p : Nat) (q : Qos) (kind : acknowledgement q p = some s)
      (unwaited : ∀ w ∈ t.held p, w.qos ≠ q) :
      Change t s ({ t with abandoned := t.abandoned.filter (· != p) }, [])
  | failed (e : PublishError) : Change t (.failAll e) (t.failAll e)
  | reset : Change t .resetSession (t.resetSession, [])
  | forgotten (k : Nat) : Change t (.forget k) (t, [])

theorem written_of_repeats (again : t.Repeats p) :
    t.written p = ({ t with abandoned := t.abandoned.filter (· != p) }, []) :=
  if_pos again

theorem written_of_nil (first : ¬ t.Repeats p) (queue : t.queued = []) : t.written p = (t, []) := by
  have hfirst : ¬ (p ≠ 0 ∧ p ∈ t.abandoned) := first
  rw [written, if_neg hfirst, queue]

theorem written_of_cons (first : ¬ t.Repeats p) (queue : t.queued = w :: rest) :
    t.written p =
      if w.qos = .atMostOnce then ({ t with queued := rest }, complete w .done)
      else if w.live then
        ({ t with queued := rest, inflight := t.without p ++ [(p, w)] },
          (t.held p).flatMap (complete · .dropped))
      else ({ t with queued := rest }, []) := by
  have hfirst : ¬ (p ≠ 0 ∧ p ∈ t.abandoned) := first
  rw [written, if_neg hfirst, queue]
  rfl

theorem written_registers (first : ¬ t.Repeats p) (queue : t.queued = w :: rest)
    (level : w.qos ≠ .atMostOnce) (live : w.live = true) :
    t.written p =
      ({ t with queued := rest, inflight := t.without p ++ [(p, w)] },
        (t.held p).flatMap (complete · .dropped)) := by
  rw [written_of_cons first queue, if_neg level, if_pos live]

theorem written_change (t : Tracker) (p : Nat) : Change t (.written p) (t.written p) := by
  by_cases again : t.Repeats p
  · rw [written_of_repeats again]
    exact .repeated p again
  · cases queue : t.queued with
    | nil =>
      rw [written_of_nil again queue]
      exact .unasked p again queue
    | cons w rest =>
      rw [written_of_cons again queue]
      by_cases level : w.qos = .atMostOnce
      · rw [if_pos level]
        exact .finished p w rest again queue level
      · rw [if_neg level]
        cases live : w.live with
        | true => exact .registered p w rest again queue level live
        | false => exact .passed p w rest again queue level live

theorem acknowledge_change (t : Tracker) (kind : acknowledgement q p = some s) :
    Change t s (t.acknowledge p q) := by
  simp only [acknowledge]
  split
  · rename_i h
    obtain ⟨w, hw, hq⟩ := List.any_eq_true.mp h
    exact .acknowledged s p q kind ⟨w, hw, eq_of_beq hq⟩
  · rename_i h
    refine .mistaken s p q kind fun w hw hq => h (List.any_eq_true.mpr ⟨w, hw, ?_⟩)
    exact beq_iff_eq.mpr hq

theorem step_change (t : Tracker) (s : Step) : Change t s (t.step s) := by
  cases s with
  | track q refusal =>
    cases refusal with
    | none => exact .tracked q
    | some e => exact .refused q e
  | written p => exact written_change t p
  | acknowledged p => exact acknowledge_change t rfl
  | released p => exact acknowledge_change t rfl
  | failAll e => exact .failed e
  | resetSession => exact .reset
  | forget k => exact .forgotten k

/-- The request that a step hands over. -/
def Step.request? : Step → Option Qos
  | .track q none => some q
  | _ => none

/-- The requests that were handed over, each under its number. -/
def requests (steps : List Step) : List (Qos × Nat) := (steps.filterMap Step.request?).zipIdx

/-- The places of the queue, be anyone still waiting for them or not. -/
def places (t : Tracker) : List (Qos × Nat) := t.queued.map fun w => (w.qos, w.ticket)

/-- Whether a step is a write that stands for the request at the front of the queue. -/
def Takes (t : Tracker) : Step → Prop
  | .written p => ¬ t.Repeats p ∧ t.queued ≠ []
  | _ => False

instance (t : Tracker) : (s : Step) → Decidable (t.Takes s)
  | .written p => inferInstanceAs (Decidable (¬ t.Repeats p ∧ t.queued ≠ []))
  | .track _ _ | .acknowledged _ | .released _ | .failAll _ | .resetSession | .forget _ =>
    inferInstanceAs (Decidable False)

/-- How many of the steps are writes of that kind. -/
def turns (t : Tracker) : List Step → Nat
  | [] => 0
  | s :: rest => (if t.Takes s then 1 else 0) + turns (t.step s).1 rest

theorem turns_snoc (t : Tracker) (steps : List Step) (s : Step) :
    turns t (steps ++ [s]) =
      turns t steps + if (collect step t steps).1.Takes s then 1 else 0 := by
  induction steps generalizing t with
  | nil => exact Nat.add_comm _ _
  | cons x steps ih =>
    rw [collect_cons]
    simp only [List.cons_append, turns, ih]
    omega

theorem requests_snoc (steps : List Step) (s : Step) :
    requests (steps ++ [s]) =
      requests steps ++ s.request?.toList.map (·, (requests steps).length) := by
  simp only [requests, List.filterMap_append, List.zipIdx_append, List.length_zipIdx, Nat.zero_add]
  cases h : s.request? with
  | none => simp [h]
  | some q => simp [h]

/-- Requests are numbered in the order in which they are handed over. -/
theorem number_of_request {n : Nat} (h : (requests steps)[n]? = some (q, k)) : k = n := by
  simp only [requests, List.getElem?_zipIdx, Nat.zero_add, Option.map_eq_some_iff,
    Prod.mk.injEq] at h
  obtain ⟨_, _, _, hk⟩ := h
  exact hk.symm

theorem request?_of_acknowledgement (h : acknowledgement q p = some s) : s.request? = none := by
  cases q <;> cases h <;> rfl

theorem not_takes_of_acknowledgement (h : acknowledgement q p = some s) : ¬ t.Takes s := by
  cases q <;> cases h <;> exact id

theorem not_failing_of_acknowledgement (h : acknowledgement q p = some s) (e : PublishError) :
    s ≠ .failAll e := by
  cases q <;> cases h <;> nofun

/-- What a step makes of those who wait in the queue. -/
def Step.settle : Step → Waiter → Waiter
  | .failAll _, w => { w with live := false }
  | _, w => w

@[simp] theorem settle_ticket (s : Step) (w : Waiter) : (s.settle w).ticket = w.ticket := by
  cases s <;> rfl

@[simp] theorem settle_qos (s : Step) (w : Waiter) : (s.settle w).qos = w.qos := by
  cases s <;> rfl

theorem settle_eq_self (h : ∀ e, s ≠ .failAll e) (w : Waiter) : s.settle w = w := by
  cases s with
  | failAll e => exact absurd rfl (h e)
  | _ => rfl

theorem map_settle (h : ∀ e, s ≠ .failAll e) (ws : List Waiter) : ws.map s.settle = ws := by
  rw [List.map_congr_left fun w _ => settle_eq_self h w, List.map_id']

/-- A step takes the front of the queue or nothing, and puts its own request at the end. -/
theorem step_queued (t : Tracker) (s : Step) :
    (t.step s).1.queued =
      (t.queued.map s.settle ++ s.request?.toList.map (Waiter.mk t.issued · true)).drop
        (if t.Takes s then 1 else 0) := by
  have hc := step_change t s
  generalize t.step s = x at hc
  cases hc with
  | failed e =>
    simp only [failAll, Step.request?, Takes, Option.toList_none, List.map_nil, List.append_nil,
      ↓reduceIte, List.drop_zero]
    rfl
  | tracked q =>
    rw [map_settle]
    · simp [track, Step.request?, Takes]
    · nofun
  | refused q e | reset | forgotten k =>
    rw [map_settle]
    · simp [resetSession, Step.request?, Takes]
    · nofun
  | repeated p again =>
    rw [map_settle]
    · simp [Step.request?, Takes, again]
    · nofun
  | unasked p first queue => simp [Step.request?, queue]
  | finished p w rest first queue _ | passed p w rest first queue _ _
    | registered p w rest first queue _ _ =>
    rw [map_settle]
    · simp [Step.request?, Takes, first, queue]
    · nofun
  | acknowledged s p q kind _ | mistaken s p q kind _ =>
    rw [map_settle (not_failing_of_acknowledgement kind)]
    simp [request?_of_acknowledgement kind, not_takes_of_acknowledgement kind]

theorem places_tickets (t : Tracker) : t.places.map (·.2) = t.queued.map (·.ticket) := by
  simp [places]

theorem step_places (t : Tracker) (s : Step) :
    (t.step s).1.places =
      (t.places ++ s.request?.toList.map (·, t.issued)).drop (if t.Takes s then 1 else 0) := by
  simp only [places, step_queued, List.map_drop, List.map_append, List.map_map, Function.comp_def,
    settle_qos, settle_ticket]

theorem step_issued (t : Tracker) (s : Step) :
    (t.step s).1.issued = t.issued + s.request?.toList.length := by
  have hc := step_change t s
  generalize t.step s = x at hc
  cases hc with
  | tracked q => rfl
  | acknowledged s p q kind _ | mistaken s p q kind _ =>
    rw [request?_of_acknowledgement kind]
    rfl
  | _ => rfl

theorem run_issued (steps : List Step) : (run steps).1.issued = (requests steps).length := by
  induction steps using List.reverseRecOn with
  | nil => rfl
  | append_singleton steps s ih =>
    rw [run_snoc, step_issued, requests_snoc, List.length_append, List.length_map, ih]

theorem places_ne_nil (h : t.Takes s) : t.places ≠ [] := by
  cases s with
  | written p => simpa [places] using h.2
  | _ => cases h

/-- The queue is what is left of the requests when those whose turn has come are taken away. -/
theorem run_places (steps : List Step) :
    turns empty steps ≤ (requests steps).length ∧
      (run steps).1.places = (requests steps).drop (turns empty steps) := by
  induction steps using List.reverseRecOn with
  | nil => exact ⟨Nat.le_refl _, rfl⟩
  | append_singleton steps s ih =>
    obtain ⟨hle, hplaces⟩ := ih
    have hdrop : (run (steps ++ [s])).1.places =
        (requests (steps ++ [s])).drop
          (turns empty steps + if (run steps).1.Takes s then 1 else 0) := by
      rw [run_snoc, step_places, hplaces, run_issued, requests_snoc,
        ← List.drop_append_of_le_length hle, List.drop_drop]
    rw [turns_snoc]
    refine ⟨?_, hdrop⟩
    rw [requests_snoc, List.length_append]
    change _ + (if (run steps).1.Takes s then 1 else 0) ≤ _
    split
    · rename_i htakes
      -- what is taken is one of the requests that were handed over before
      have hne := places_ne_nil htakes
      have : turns empty steps < (requests steps).length := by
        by_contra hge
        exact hne (hplaces.trans (List.drop_eq_nil_of_le (Nat.le_of_not_lt hge)))
      omega
    · omega

/-- Writes stay aligned with requests: after any steps the queue is the requests that were handed
over, in their order and with their qualities of service, but for those whose turn has come; a write
that takes a place takes the place of the next of them, and any other step leaves the places as they
are and puts the request it hands over behind them. -/
theorem writes_aligned (steps : List Step) :
    let t := (run steps).1
    let n := turns empty steps
    t.places = (requests steps).drop n ∧
      (∀ p, t.Takes (.written p) →
        ∃ q, (requests steps)[n]? = some (q, n) ∧
          t.places = (q, n) :: (t.step (.written p)).1.places) ∧
      ∀ s, ¬ t.Takes s →
        (t.step s).1.places = t.places ++ s.request?.toList.map (·, (requests steps).length) := by
  intro t n
  obtain ⟨_, hplaces⟩ := run_places steps
  refine ⟨hplaces, fun p htakes => ?_, fun s hnot => ?_⟩
  · have hstep : (t.step (.written p)).1.places = t.places.tail := by
      rw [step_places, if_pos htakes, List.drop_one]
      simp [Step.request?]
    obtain ⟨⟨q, k⟩, rest, hcons⟩ := List.exists_cons_of_ne_nil (places_ne_nil htakes)
    have hnext : (requests steps)[n]? = some (q, k) := by
      have hhead := congrArg List.head? (hplaces.symm.trans hcons)
      rwa [List.head?_drop] at hhead
    obtain rfl := number_of_request hnext
    exact ⟨q, hnext, by rw [hstep, hcons, List.tail_cons]⟩
  · rw [step_places, if_neg hnot, List.drop_zero, run_issued]

end Uplink.Broker.Tracker
