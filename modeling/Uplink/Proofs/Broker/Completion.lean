import Uplink.Proofs.Broker.Conservation

namespace Uplink.Broker.Tracker

variable {t : Tracker} {s : Step} {q q' : Qos} {p j k : Nat} {w : Waiter} {rest : List Waiter}
  {steps before after : List Step}

/-- The requests in flight under a packet identifier; there is one at most. -/
def under (t : Tracker) (p : Nat) : List Nat := (t.held p).map (·.ticket)

/-- A step by which a request leaves the queue. -/
def Consumes (t : Tracker) (s : Step) (k : Nat) : Prop :=
  k ∈ t.queued.map (·.ticket) ∧ k ∉ (t.step s).1.queued.map (·.ticket)

/-- A step by which a request comes into flight under a packet identifier. -/
def Registers (t : Tracker) (s : Step) (p k : Nat) : Prop :=
  k ∉ t.under p ∧ k ∈ (t.step s).1.under p

/-- What comes of some steps, a request that is handed over after them, and further steps. -/
def since (before : List Step) (q : Qos) (after : List Step) : Tracker × List Completion :=
  run (before ++ .track q none :: after)

theorem since_snoc (before : List Step) (q : Qos) (after : List Step) (s : Step) :
    since before q (after ++ [s]) =
      (((since before q after).1.step s).1,
        (since before q after).2 ++ ((since before q after).1.step s).2) := by
  rw [since, ← List.cons_append, ← List.append_assoc, run_snoc]
  rfl

theorem mem_under : k ∈ t.under p ↔ ∃ w, (p, w) ∈ t.inflight ∧ w.ticket = k := by
  simp only [under, List.mem_map, mem_held]

theorem mem_flying : k ∈ t.flying ↔ ∃ p, k ∈ t.under p := by
  simp only [mem_under, flying, List.mem_map, Prod.exists]

theorem mem_waiting : k ∈ t.waiting ↔ ∃ w ∈ t.queued, w.live = true ∧ w.ticket = k := by
  simp only [waiting, List.mem_map, List.mem_filter, and_assoc]

theorem mem_requests : (q, k) ∈ requests steps ↔ (requests steps)[k]? = some (q, k) := by
  simp [requests, List.mk_mem_zipIdx_iff_getElem?]

/-- A number stands for one request. -/
theorem qos_unique (h : (q, k) ∈ requests steps) (h' : (q', k) ∈ requests steps) : q = q' := by
  rw [mem_requests] at h h'
  exact (Prod.mk.inj (Option.some.inj (h.symm.trans h'))).1

theorem numbers_nodup (steps : List Step) : ((requests steps).map (·.2)).Nodup := by
  rw [requests, List.zipIdx_map_snd]
  exact List.nodup_range'

theorem lt_of_mem_requests (h : (q, k) ∈ requests steps) : k < (requests steps).length :=
  (List.getElem?_eq_some_iff.mp (mem_requests.mp h)).1

/-- What is in flight has had its turn. -/
theorem run_flying (steps : List Step) (p : Nat) (w : Waiter)
    (h : (p, w) ∈ (run steps).1.inflight) :
    (w.qos, w.ticket) ∈ (requests steps).take (turns empty steps) := by
  induction steps using List.reverseRecOn generalizing p w with
  | nil => cases h
  | append_singleton steps s ih =>
    obtain ⟨hle, hplaces⟩ := run_places steps
    rw [run_snoc] at h
    rw [turns_snoc]
    change _ ∈ (requests _).take (_ + if (run steps).1.Takes s then 1 else 0)
    rcases mem_step_inflight h with h | ⟨rfl, first, _, _, rest, queue⟩
    · have hpre : (requests steps).take (turns empty steps) <+: (requests (steps ++ [s])).take
          (turns empty steps + if (run steps).1.Takes s then 1 else 0) := by
        rw [requests_snoc]
        refine List.prefix_of_prefix_length_le
          ((List.take_prefix _ _).trans (List.prefix_append _ _)) (List.take_prefix _ _) ?_
        simp only [List.length_take, List.length_append]
        omega
      exact hpre.subset (ih p w h)
    · have htakes : (run steps).1.Takes (.written p) := ⟨first, by simp [queue]⟩
      have hnext : (requests steps)[turns empty steps]? = some (w.qos, w.ticket) := by
        rw [← List.head?_drop, ← hplaces, places, queue]
        rfl
      have hreq : requests (steps ++ [.written p]) = requests steps := by
        simp [requests_snoc, Step.request?]
      rw [if_pos htakes, hreq, List.take_add_one, hnext]
      exact List.mem_append_right _ List.mem_cons_self

/-- All that a tracker holds under a number is the one request of that number. -/
structure Holds (t : Tracker) (q : Qos) (k : Nat) : Prop where
  tidy : Tidy t
  distinct : (t.queued.map (·.ticket)).Nodup
  apart : ∀ w ∈ t.queued, w.ticket ∉ t.flying
  queued : ∀ w ∈ t.queued, w.ticket = k → w.qos = q
  flying : ∀ p w, (p, w) ∈ t.inflight → w.ticket = k → w.qos = q

theorem run_holds (h : (q, k) ∈ requests steps) : Holds (run steps).1 q k := by
  have hplaces := (run_places steps).2
  have hsplit : ((requests steps).take (turns empty steps)).map (·.2) ++
      ((requests steps).drop (turns empty steps)).map (·.2) = (requests steps).map (·.2) := by
    rw [← List.map_append, List.take_append_drop]
  have hnodup := List.nodup_append.mp (hsplit ▸ numbers_nodup steps)
  have hqueued : ∀ w ∈ (run steps).1.queued,
      (w.qos, w.ticket) ∈ (requests steps).drop (turns empty steps) := by
    intro w hw
    rw [← hplaces]
    exact List.mem_map.mpr ⟨w, hw, rfl⟩
  refine ⟨run_tidy steps, ?_, fun w hw hf => ?_, fun w hw hk => ?_, fun p w hm hk => ?_⟩
  · rw [← places_tickets, hplaces]
    exact hnodup.2.1
  · obtain ⟨⟨p, v⟩, hm, hv⟩ := List.mem_map.mp hf
    refine hnodup.2.2 v.ticket (List.mem_map.mpr ⟨_, run_flying steps p v hm, rfl⟩) w.ticket ?_ hv
    exact List.mem_map.mpr ⟨_, hqueued w hw, rfl⟩
  · subst hk
    exact qos_unique (List.mem_of_mem_drop (hqueued w hw)) h
  · subst hk
    exact qos_unique (List.mem_of_mem_take (run_flying steps p w hm)) h

theorem consumes_iff (h : Holds t q k) :
    Consumes t s k ↔
      ∃ p w rest, s = .written p ∧ ¬ t.Repeats p ∧ t.queued = w :: rest ∧ w.ticket = k := by
  constructor
  · rintro ⟨hk, hnot⟩
    rw [← places_tickets, step_places] at hnot
    by_cases htakes : t.Takes s
    · rw [if_pos htakes, List.drop_one] at hnot
      cases s with
      | written p =>
        obtain ⟨w, rest, queue⟩ := List.exists_cons_of_ne_nil htakes.2
        refine ⟨p, w, rest, rfl, htakes.1, queue, ?_⟩
        simp only [queue, List.map_cons, List.mem_cons] at hk
        refine (hk.resolve_right fun hk => hnot ?_).symm
        simpa [places, queue, Step.request?] using hk
      | _ => cases htakes
    · rw [if_neg htakes, List.drop_zero, List.map_append, places_tickets] at hnot
      exact absurd (List.mem_append_left _ hk) hnot
  · rintro ⟨p, w, rest, rfl, first, queue, rfl⟩
    have htakes : t.Takes (.written p) := ⟨first, by simp [queue]⟩
    have hd := h.distinct
    rw [queue, List.map_cons, List.nodup_cons] at hd
    refine ⟨by simp [queue], ?_⟩
    rw [← places_tickets, step_places, if_pos htakes]
    simpa [places, queue, Step.request?] using hd.1

/-- The same while somebody still waits for the request. -/
theorem consumes_waiting_iff (h : Holds t q k) :
    Consumes t s k ∧ k ∈ t.waiting ↔
      ∃ p w rest, s = .written p ∧ ¬ t.Repeats p ∧ t.queued = w :: rest ∧ w.live = true ∧
        w.ticket = k := by
  rw [consumes_iff h]
  constructor
  · rintro ⟨⟨p, w, rest, rfl, first, queue, rfl⟩, hwaiting⟩
    obtain ⟨v, hv, live, hticket⟩ := mem_waiting.mp hwaiting
    obtain rfl := List.inj_on_of_nodup_map h.distinct hv (by simp [queue]) hticket
    exact ⟨p, v, rest, rfl, first, queue, live, rfl⟩
  · rintro ⟨p, w, rest, rfl, first, queue, live, rfl⟩
    refine ⟨⟨p, w, rest, rfl, first, queue, rfl⟩, mem_waiting.mpr ⟨w, ?_, live, rfl⟩⟩
    simp [queue]

theorem mem_step_queued (h : w ∈ (t.step s).1.queued) :
    w.ticket = t.issued ∨ ∃ v ∈ t.queued, w = s.settle v := by
  rw [step_queued] at h
  rcases List.mem_append.mp (List.mem_of_mem_drop h) with h | h
  · obtain ⟨v, hv, rfl⟩ := List.mem_map.mp h
    exact .inr ⟨v, hv, rfl⟩
  · obtain ⟨q, _, rfl⟩ := List.mem_map.mp h
    exact .inl rfl

theorem under_written (first : ¬ t.Repeats p) (queue : t.queued = w :: rest)
    (level : w.qos ≠ .atMostOnce) (live : w.live = true) :
    w.ticket ∈ (t.step (.written p)).1.under p := by
  rw [step, written_registers first queue level live]
  exact mem_under.mpr ⟨w, List.mem_append_right _ List.mem_cons_self, rfl⟩

/-- A packet identifier is given to the front of the queue, unless nobody waits for that any more.
-/
theorem registers_iff (h : Holds t q k) :
    Registers t s p j ↔
      ∃ w rest, s = .written p ∧ ¬ t.Repeats p ∧ t.queued = w :: rest ∧ w.live = true ∧
        w.qos ≠ .atMostOnce ∧ w.ticket = j := by
  constructor
  · rintro ⟨hnot, hin⟩
    obtain ⟨w, hm, rfl⟩ := mem_under.mp hin
    rcases mem_step_inflight hm with hold | ⟨rfl, first, live, level, rest, queue⟩
    · exact absurd (mem_under.mpr ⟨w, hold, rfl⟩) hnot
    · exact ⟨w, rest, rfl, first, queue, live, level, rfl⟩
  · rintro ⟨w, rest, rfl, first, queue, live, level, rfl⟩
    have hw : w.ticket ∉ t.flying := h.apart w (by simp [queue])
    exact ⟨fun hu => hw (mem_flying.mpr ⟨p, hu⟩), under_written first queue level live⟩

/-- A request ends well by the write that takes it from the queue, if it needs no acknowledgement,
or by its own acknowledgement. -/
theorem done_iff (h : Holds t q k) :
    ⟨k, .done⟩ ∈ (t.step s).2 ↔
      q = .atMostOnce ∧ Consumes t s k ∧ k ∈ t.waiting ∨
        ∃ p, acknowledgement q p = some s ∧ k ∈ t.under p := by
  rw [mem_step h.tidy]
  constructor
  · intro he
    cases he with
    | written p w rest first queue live level =>
      have hw : w ∈ t.queued := by simp [queue]
      refine .inl ⟨(h.queued w hw rfl).symm.trans level, (consumes_waiting_iff h).mpr ?_⟩
      exact ⟨p, w, rest, rfl, first, queue, live, rfl⟩
    | acknowledged s p w flying kind =>
      rw [h.flying p w flying rfl] at kind
      exact .inr ⟨p, kind, mem_under.mpr ⟨w, flying, rfl⟩⟩
  · rintro (⟨hq, htakes⟩ | ⟨p, kind, hunder⟩)
    · obtain ⟨p, w, rest, rfl, first, queue, live, rfl⟩ := (consumes_waiting_iff h).mp htakes
      have hw : w ∈ t.queued := by simp [queue]
      exact .written p w rest first queue live ((h.queued w hw rfl).trans hq)
    · obtain ⟨w, flying, rfl⟩ := mem_under.mp hunder
      rw [← h.flying p w flying rfl] at kind
      exact .acknowledged s p w flying kind

theorem failed_iff {e : PublishError} (h : Tidy t) :
    ⟨k, .failed e⟩ ∈ (t.step s).2 ↔ s = .failAll e ∧ (k ∈ t.waiting ∨ k ∈ t.flying) := by
  rw [mem_step h]
  constructor
  · intro he
    cases he with
    | failed e k pending => exact ⟨rfl, pending⟩
  · rintro ⟨rfl, pending⟩
    exact .failed e k pending

/-- A request is dropped when its packet identifier is given to another. -/
theorem dropped_iff (h : Holds t q k) :
    ⟨k, .dropped⟩ ∈ (t.step s).2 ↔
      ∃ p, k ∈ t.under p ∧ ∃ j, j ≠ k ∧ Registers t s p j := by
  rw [mem_step h.tidy]
  constructor
  · intro he
    cases he with
    | dropped p v w rest first queue live level flying =>
      have hv : v.ticket ∈ t.under p := mem_under.mpr ⟨v, flying, rfl⟩
      refine ⟨p, hv, w.ticket, fun he => ?_, ?_⟩
      · exact h.apart w (by simp [queue]) (he ▸ mem_flying.mpr ⟨p, hv⟩)
      · exact (registers_iff h).mpr ⟨w, rest, rfl, first, queue, live, level, rfl⟩
  · rintro ⟨p, hk, j, _, hreg⟩
    obtain ⟨v, hm, rfl⟩ := mem_under.mp hk
    obtain ⟨w, rest, rfl, first, queue, live, level, rfl⟩ := (registers_iff h).mp hreg
    exact .dropped p v w rest first queue live level hm

/-- Somebody waits for a request as long as it is in the queue and nothing fails. -/
theorem waiting_step (h : Holds t q k) (hk : k < t.issued) :
    k ∈ (t.step s).1.waiting ↔
      k ∈ t.waiting ∧ (∀ e, s ≠ .failAll e) ∧ k ∈ (t.step s).1.queued.map (·.ticket) := by
  constructor
  · intro hlater
    obtain ⟨w, hw, live, rfl⟩ := mem_waiting.mp hlater
    rcases mem_step_queued hw with hnew | ⟨v, hv, rfl⟩
    · omega
    · have hfail : ∀ e, s ≠ .failAll e := by
        rintro e rfl
        cases live
      rw [settle_eq_self hfail] at hw live ⊢
      exact ⟨mem_waiting.mpr ⟨v, hv, live, rfl⟩, hfail, List.mem_map_of_mem hw⟩
  · rintro ⟨hearlier, hfail, hm⟩
    obtain ⟨v, hv, live, rfl⟩ := mem_waiting.mp hearlier
    obtain ⟨w, hw, hticket⟩ := List.mem_map.mp hm
    rcases mem_step_queued hw with hnew | ⟨u, hu, rfl⟩
    · omega
    · rw [settle_eq_self hfail] at hw hticket
      obtain rfl := List.inj_on_of_nodup_map h.distinct hu hv hticket
      exact mem_waiting.mpr ⟨u, hw, live, rfl⟩

/-- A request comes into flight when it is written, and stays there until everything fails, it is
acknowledged, or its packet identifier is given to another. -/
theorem under_step (h : Holds t q k) :
    k ∈ (t.step s).1.under p ↔
      s = .written p ∧ q ≠ .atMostOnce ∧ Consumes t s k ∧ k ∈ t.waiting ∨
      k ∈ t.under p ∧ (∀ e, s ≠ .failAll e) ∧ acknowledgement q p ≠ some s ∧
        ∀ j, j ≠ k → ¬ Registers t s p j := by
  constructor
  · intro hk
    obtain ⟨w, hm, rfl⟩ := mem_under.mp hk
    -- either it was there before the step, and none of the three happened, or the step put it there
    rcases mem_step_inflight hm with hold | ⟨rfl, first, live, level, rest, queue⟩
    · right
      refine ⟨mem_under.mpr ⟨w, hold, rfl⟩, ?_, ?_, ?_⟩
      · rintro e rfl
        cases hm
      · intro kind
        rw [← h.flying p w hold rfl] at kind
        rw [step_acknowledgement t kind, acknowledge_of_mem hold] at hm
        exact (mem_without.mp hm).2 rfl
      · rintro j hj ⟨_, hreg⟩
        obtain ⟨v, hv, rfl⟩ := mem_under.mp hreg
        exact hj (congrArg Waiter.ticket ((step_tidy h.tidy s).unique hv hm))
    · left
      have hw : w ∈ t.queued := by simp [queue]
      have hq : q ≠ .atMostOnce := by rwa [← h.queued w hw rfl]
      exact ⟨rfl, hq, (consumes_waiting_iff h).mpr ⟨p, w, rest, rfl, first, queue, live, rfl⟩⟩
  · rintro (⟨rfl, hq, htakes⟩ | ⟨hk, hfail, hkind, hreg⟩)
    · obtain ⟨p', w, rest, hp, first, queue, live, rfl⟩ := (consumes_waiting_iff h).mp htakes
      obtain rfl : p = p' := Step.written.inj hp
      have hw : w ∈ t.queued := by simp [queue]
      have level : w.qos ≠ .atMostOnce := by rwa [h.queued w hw rfl]
      exact under_written first queue level live
    · obtain ⟨w, hm, rfl⟩ := mem_under.mp hk
      rcases mem_inflight_step (s := s) h.tidy hm with hm | ⟨e, rfl⟩ | kind |
        ⟨v, rest, rfl, first, queue, live, level⟩
      · exact mem_under.mpr ⟨w, hm, rfl⟩
      · exact absurd rfl (hfail e)
      · rw [h.flying p w hm rfl] at kind
        exact absurd kind hkind
      · have hne : v.ticket ≠ w.ticket := fun he =>
          h.apart v (by simp [queue]) (he ▸ List.mem_map.mpr ⟨(p, w), hm, rfl⟩)
        refine absurd ((registers_iff h).mpr ?_) (hreg v.ticket hne)
        exact ⟨v, rest, rfl, first, queue, live, level, rfl⟩

/-- The request that is handed over in the end is the next one by number. -/
theorem mem_requests_since (before : List Step) (q : Qos) (after : List Step) :
    (q, (requests before).length) ∈ requests (before ++ .track q none :: after) := by
  rw [mem_requests]
  simp [requests, Step.request?]

theorem since_holds (before : List Step) (q : Qos) (after : List Step) :
    Holds (since before q after).1 q (requests before).length :=
  run_holds (mem_requests_since before q after)

/-- A request that was not handed over yet is nowhere. -/
theorem not_in_run (steps : List Step) (hk : (requests steps).length ≤ k) :
    k ∉ (run steps).1.queued.map (·.ticket) ∧ k ∉ (run steps).1.flying ∧
      k ∉ (run steps).2.map (·.ticket) := by
  have hall : ∀ j ∈ (run steps).1.waiting ++ (run steps).1.flying ++
      (run steps).2.map (·.ticket), j ≠ k := by
    intro j hj
    have := List.mem_range.mp ((run_conserves steps).mem_iff.mp hj)
    omega
  refine ⟨fun hm => ?_, fun hm => ?_, fun hm => ?_⟩
  · obtain ⟨w, hw, rfl⟩ := List.mem_map.mp hm
    have hplace : (w.qos, w.ticket) ∈ (run steps).1.places := List.mem_map.mpr ⟨w, hw, rfl⟩
    rw [(run_places steps).2] at hplace
    have := lt_of_mem_requests (List.mem_of_mem_drop hplace)
    omega
  · exact hall k (List.mem_append_left _ (List.mem_append_right _ hm)) rfl
  · exact hall k (List.mem_append_right _ hm) rfl

/-- Steps by which nothing is failed. -/
def NoFailure (steps : List Step) : Prop := ∀ e, .failAll e ∉ steps

theorem noFailure_snoc : NoFailure (after ++ [s]) ↔ NoFailure after ∧ ∀ e, s ≠ .failAll e := by
  simp only [NoFailure, List.mem_append, List.mem_singleton, not_or, forall_and]
  exact and_congr_right fun _ => forall_congr' fun e => ne_comm

/-- Somebody waits for a request in the queue until something fails. -/
theorem waiting_since (before : List Step) (q : Qos) (after : List Step) :
    (requests before).length ∈ (since before q after).1.waiting ↔
      NoFailure after ∧
        (requests before).length ∈ (since before q after).1.queued.map (·.ticket) := by
  induction after using List.reverseRecOn with
  | nil =>
    have hnew : ⟨(requests before).length, q, true⟩ ∈ (since before q []).1.queued := by
      rw [since, run_snoc, step_queued, run_issued, if_neg (by simp [Takes]), List.drop_zero]
      exact List.mem_append_right _ List.mem_cons_self
    refine iff_of_true (mem_waiting.mpr ⟨_, hnew, rfl, rfl⟩) ⟨fun e he => ?_, ?_⟩
    · cases he
    · exact List.mem_map.mpr ⟨_, hnew, rfl⟩
  | append_singleton after s ih =>
    have hh := since_holds before q after
    have hk : (requests before).length < (since before q after).1.issued := by
      rw [since, run_issued]
      exact lt_of_mem_requests (mem_requests_since before q after)
    rw [since_snoc, waiting_step hh hk, ih, noFailure_snoc]
    constructor
    · rintro ⟨⟨hnone, _⟩, hfail, hm⟩
      exact ⟨⟨hnone, hfail⟩, hm⟩
    · rintro ⟨⟨hnone, hfail⟩, hm⟩
      refine ⟨⟨hnone, ?_⟩, hfail, hm⟩
      obtain ⟨w, hw, hticket⟩ := List.mem_map.mp hm
      rcases mem_step_queued hw with hnew | ⟨v, hv, rfl⟩
      · omega
      · exact List.mem_map.mpr ⟨v, hv, by rw [← hticket, settle_ticket]⟩

/-- A request was written under a packet identifier in the course of some steps, and since then it
was not acknowledged and the identifier was not given to another. -/
def Outstanding (before : List Step) (q : Qos) (after : List Step) (p : Nat) : Prop :=
  ∃ earlier later, after = earlier ++ .written p :: later ∧
    Consumes (since before q earlier).1 (.written p) (requests before).length ∧
    (∀ s ∈ later, acknowledgement q p ≠ some s) ∧
    ∀ us u vs, later = us ++ u :: vs → ∀ j, j ≠ (requests before).length →
      ¬ Registers (since before q (earlier ++ .written p :: us)).1 u p j

/-- The packet identifier of a request in flight was given to another. -/
def Replaced (before : List Step) (q : Qos) (after : List Step) : Prop :=
  ∃ earlier s later p, after = earlier ++ s :: later ∧
    (requests before).length ∈ (since before q earlier).1.under p ∧
    ∃ j, j ≠ (requests before).length ∧ Registers (since before q earlier).1 s p j

/-- A list with one more member is taken apart there or before. -/
theorem snoc_eq_split {ι : Type} {xs us vs : List ι} {x u : ι} :
    xs ++ [x] = us ++ u :: vs ↔
      xs = us ∧ x = u ∧ vs = [] ∨ ∃ ws, vs = ws ++ [x] ∧ xs = us ++ u :: ws := by
  constructor
  · intro h
    cases vs using List.reverseRecOn with
    | nil =>
      obtain ⟨rfl, hx⟩ := List.append_inj' h rfl
      exact .inl ⟨rfl, (List.cons.inj hx).1, rfl⟩
    | append_singleton ws v =>
      rw [← List.cons_append, ← List.append_assoc] at h
      obtain ⟨rfl, hx⟩ := List.append_inj' h rfl
      exact .inr ⟨ws, by rw [(List.cons.inj hx).1], rfl⟩
  · rintro (⟨rfl, rfl, rfl⟩ | ⟨ws, rfl, rfl⟩)
    · rfl
    · simp

theorem replaced_snoc :
    Replaced before q (after ++ [s]) ↔
      Replaced before q after ∨
        ∃ p, (requests before).length ∈ (since before q after).1.under p ∧
          ∃ j, j ≠ (requests before).length ∧ Registers (since before q after).1 s p j := by
  constructor
  · rintro ⟨earlier, u, later, p, hsplit, hunder, hreg⟩
    rcases snoc_eq_split.mp hsplit with ⟨rfl, rfl, rfl⟩ | ⟨ws, rfl, rfl⟩
    · exact .inr ⟨p, hunder, hreg⟩
    · exact .inl ⟨earlier, u, ws, p, rfl, hunder, hreg⟩
  · rintro (⟨earlier, u, later, p, rfl, hunder, hreg⟩ | ⟨p, hunder, hreg⟩)
    · exact ⟨earlier, u, later ++ [s], p, by simp, hunder, hreg⟩
    · exact ⟨after, s, [], p, rfl, hunder, hreg⟩

theorem outstanding_snoc :
    Outstanding before q (after ++ [s]) p ↔
      s = .written p ∧ Consumes (since before q after).1 s (requests before).length ∨
      Outstanding before q after p ∧ acknowledgement q p ≠ some s ∧
        ∀ j, j ≠ (requests before).length → ¬ Registers (since before q after).1 s p j := by
  constructor
  · rintro ⟨earlier, later, hsplit, hconsumes, hack, hreg⟩
    rcases snoc_eq_split.mp hsplit with ⟨rfl, rfl, rfl⟩ | ⟨ws, rfl, rfl⟩
    · exact .inl ⟨rfl, hconsumes⟩
    · refine .inr ⟨⟨earlier, ws, rfl, hconsumes, fun u hu => ?_, fun us u vs hws => ?_⟩,
        hack s (by simp), hreg ws s [] rfl⟩
      · exact hack u (List.mem_append_left _ hu)
      · exact hreg us u (vs ++ [s]) (by simp [hws])
  · rintro (⟨rfl, hconsumes⟩ | ⟨⟨earlier, later, rfl, hconsumes, hack, hreg⟩, hkind, hlast⟩)
    · exact ⟨after, [], rfl, hconsumes, nofun, by simp⟩
    · refine ⟨earlier, later ++ [s], by simp, hconsumes, fun u hu => ?_, fun us u vs hws => ?_⟩
      · rcases List.mem_append.mp hu with hu | hu
        · exact hack u hu
        · rwa [List.mem_singleton.mp hu]
      · rcases snoc_eq_split.mp hws with ⟨rfl, rfl, rfl⟩ | ⟨ws, rfl, rfl⟩
        · exact hlast
        · exact hreg us u ws rfl

/-- A request is in flight as its history says. -/
theorem under_since (before : List Step) (q : Qos) (after : List Step) (p : Nat) :
    (requests before).length ∈ (since before q after).1.under p ↔
      NoFailure after ∧ q ≠ .atMostOnce ∧ Outstanding before q after p := by
  induction after using List.reverseRecOn with
  | nil =>
    refine iff_of_false (fun hu => ?_) ?_
    · have hf : (requests before).length ∈ (since before q []).1.flying := mem_flying.mpr ⟨p, hu⟩
      rw [since, run_snoc] at hf
      exact (not_in_run before (Nat.le_refl _)).2.1 hf
    · rintro ⟨_, _, earlier, later, hsplit, _⟩
      simp at hsplit
  | append_singleton after s ih =>
    have hh := since_holds before q after
    rw [since_snoc, under_step hh, ih, waiting_since, noFailure_snoc, outstanding_snoc]
    constructor
    · rintro (⟨rfl, hq, hconsumes, hnone, _⟩ | ⟨⟨hnone, hq, hout⟩, hfail, hkind, hreg⟩)
      · exact ⟨⟨hnone, nofun⟩, hq, .inl ⟨rfl, hconsumes⟩⟩
      · exact ⟨⟨hnone, hfail⟩, hq, .inr ⟨hout, hkind, hreg⟩⟩
    · rintro ⟨⟨hnone, hfail⟩, hq, ⟨rfl, hconsumes⟩ | ⟨hout, hkind, hreg⟩⟩
      · exact .inl ⟨rfl, hq, hconsumes, hnone, hconsumes.1⟩
      · exact .inr ⟨⟨hnone, hq, hout⟩, hfail, hkind, hreg⟩

theorem mem_dropped {o : List Completion} : k ∈ dropped o ↔ ⟨k, .dropped⟩ ∈ o := by
  constructor
  · intro h
    obtain ⟨⟨_, outcome⟩, hm, rfl⟩ := List.mem_map.mp h
    obtain ⟨hm, ho⟩ := List.mem_filter.mp hm
    rwa [← eq_of_beq ho]
  · exact fun h => List.mem_map.mpr ⟨_, List.mem_filter.mpr ⟨h, rfl⟩, rfl⟩

/-- The requests that are dropped are those whose packet identifier was given to another. -/
theorem dropped_since (before : List Step) (q : Qos) (after : List Step) :
    (requests before).length ∈ dropped (since before q after).2 ↔ Replaced before q after := by
  induction after using List.reverseRecOn with
  | nil =>
    refine iff_of_false (fun hd => ?_) ?_
    · have ho : (since before q []).2 = (run before).2 := by
        rw [since, run_snoc]
        exact List.append_nil _
      rw [mem_dropped, ho] at hd
      exact (not_in_run before (Nat.le_refl _)).2.2 (List.mem_map_of_mem hd)
    · rintro ⟨earlier, s, later, p, hsplit, _⟩
      simp at hsplit
  | append_singleton after s ih =>
    rw [since_snoc, mem_dropped, List.mem_append, ← mem_dropped, ih, replaced_snoc,
      dropped_iff (since_holds before q after)]

/-- A request is pending while nothing has failed since it was handed over, it was not completed and
its packet identifier was not given to another. -/
theorem pending_since (before : List Step) (q : Qos) (after : List Step) :
    ((requests before).length ∈ (since before q after).1.waiting ∨
        (requests before).length ∈ (since before q after).1.flying) ↔
      NoFailure after ∧ (requests before).length ∉ completed (since before q after).2 ∧
        ¬ Replaced before q after := by
  have hnone : ((requests before).length ∈ (since before q after).1.waiting ∨
      (requests before).length ∈ (since before q after).1.flying) → NoFailure after := by
    rintro (hw | hf)
    · exact ((waiting_since before q after).mp hw).1
    · obtain ⟨p, hu⟩ := mem_flying.mp hf
      exact ((under_since before q after p).mp hu).1
  have hk := lt_of_mem_requests (mem_requests_since before q after)
  rw [← dropped_since]
  exact ⟨fun h => ⟨hnone h, (pending_iff hk).mp h⟩, fun h => (pending_iff hk).mpr h.2⟩

/-- How a request ends is told by its history. It ends well in a step just when nothing has failed
since it was handed over, and the step is either the write that takes it from the queue, if it needs
no acknowledgement, or else the first acknowledgement in its way of the packet it was written as,
unless the identifier was given to another meanwhile. It fails just with the first failure since, if
it was not completed and its identifier was not given to another before. An acknowledgement in the
way of another quality of service ends nothing and leaves everything in its place. -/
theorem completion_exact (before : List Step) (q : Qos) (after : List Step) (s : Step) :
    let k := (requests before).length
    let t := (since before q after).1
    (⟨k, .done⟩ ∈ (t.step s).2 ↔
        NoFailure after ∧
          (q = .atMostOnce ∧ Consumes t s k ∨
            ∃ p, acknowledgement q p = some s ∧ Outstanding before q after p)) ∧
      (∀ e, ⟨k, .failed e⟩ ∈ (t.step s).2 ↔
        s = .failAll e ∧ NoFailure after ∧ k ∉ completed (since before q after).2 ∧
          ¬ Replaced before q after) ∧
      ∀ p w r, (p, w) ∈ t.inflight → r ≠ w.qos → acknowledgement r p = some s →
        (t.step s).2 = [] ∧ (t.step s).1.inflight = t.inflight ∧
          (t.step s).1.queued = t.queued := by
  intro k t
  have hh : Holds t q k := since_holds before q after
  refine ⟨?_, fun e => ?_, fun p w r hm hr kind => ?_⟩
  · rw [done_iff hh, waiting_since]
    constructor
    · rintro (⟨hq, hconsumes, hnone, _⟩ | ⟨p, kind, hunder⟩)
      · exact ⟨hnone, .inl ⟨hq, hconsumes⟩⟩
      · obtain ⟨hnone, _, hout⟩ := (under_since before q after p).mp hunder
        exact ⟨hnone, .inr ⟨p, kind, hout⟩⟩
    · rintro ⟨hnone, ⟨hq, hconsumes⟩ | ⟨p, kind, hout⟩⟩
      · exact .inl ⟨hq, hconsumes, hnone, hconsumes.1⟩
      · refine .inr ⟨p, kind, (under_since before q after p).mpr ⟨hnone, ?_, hout⟩⟩
        rintro rfl
        cases kind
  · rw [failed_iff hh.tidy, pending_since]
  · have hother : ∀ v ∈ t.held p, v.qos ≠ r := by
      intro v hv
      rw [hh.tidy.unique (mem_held.mp hv) hm]
      exact hr.symm
    rw [step_acknowledgement t kind, acknowledge_of_ne hother]
    exact ⟨rfl, rfl, rfl⟩

end Uplink.Broker.Tracker
