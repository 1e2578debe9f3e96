import Mathlib.Data.List.Nodup
import Uplink.Proofs.Broker.Turns

namespace Uplink.Broker.Tracker

variable {t : Tracker} {s : Step} {q : Qos} {p k : Nat} {w : Waiter} {rest ws : List Waiter}
  {outcome : Outcome} {c : Completion} {e : PublishError} {steps : List Step}

/-- The requests in the queue for which somebody still waits. -/
def waiting (t : Tracker) : List Nat := (t.queued.filter (·.live)).map (·.ticket)

def flying (t : Tracker) : List Nat := t.inflight.map (·.2.ticket)

/-- The requests that ended well or failed. -/
def completed (o : List Completion) : List Nat :=
  (o.filter (·.outcome != .dropped)).map (·.ticket)

def dropped (o : List Completion) : List Nat :=
  (o.filter (·.outcome == .dropped)).map (·.ticket)

theorem pending_eq (t : Tracker) : t.pending = t.waiting.length + t.flying.length := by
  simp only [pending, waiting, flying, List.length_map, List.countP_eq_length_filter]

theorem mem_held : w ∈ t.held p ↔ (p, w) ∈ t.inflight := by
  constructor
  · intro h
    obtain ⟨⟨p', w'⟩, hm, rfl⟩ := List.mem_map.mp h
    obtain ⟨hm, hp⟩ := List.mem_filter.mp hm
    rwa [← eq_of_beq hp]
  · intro h
    exact List.mem_map.mpr ⟨(p, w), List.mem_filter.mpr ⟨h, beq_self_eq_true p⟩, rfl⟩

theorem mem_without {p' : Nat} : (p', w) ∈ t.without p ↔ (p', w) ∈ t.inflight ∧ p' ≠ p := by
  simp only [without, List.mem_filter, bne_iff_ne]

theorem held_eq_nil (h : ∀ w, (p, w) ∉ t.inflight) : t.held p = [] :=
  List.eq_nil_iff_forall_not_mem.mpr fun w hw => h w (mem_held.mp hw)

theorem without_eq_self (h : ∀ w, (p, w) ∉ t.inflight) : t.without p = t.inflight := by
  refine List.filter_eq_self.mpr ?_
  rintro ⟨p', w⟩ hm
  refine bne_iff_ne.mpr ?_
  rintro rfl
  exact h w hm

theorem mem_completes :
    c ∈ ws.flatMap (complete · outcome) ↔
      ∃ w ∈ ws, w.live = true ∧ c = ⟨w.ticket, outcome⟩ := by
  simp only [List.mem_flatMap, complete]
  refine exists_congr fun w => and_congr_right fun _ => ?_
  cases w.live <;> simp

/-- What ends when some waiters are told how their requests ended. -/
theorem tickets_completes (ws : List Waiter) (outcome : Outcome) :
    (ws.flatMap (complete · outcome)).map (·.ticket) =
      (ws.filter (·.live)).map (·.ticket) := by
  induction ws with
  | nil => rfl
  | cons w ws ih =>
    rw [List.flatMap_cons, List.map_append, ih, List.filter_cons]
    cases hl : w.live <;> simp [complete, hl]

/-- What comes into flight comes from the front of the queue. -/
theorem mem_step_inflight (h : (p, w) ∈ (t.step s).1.inflight) :
    (p, w) ∈ t.inflight ∨
      s = .written p ∧ ¬ t.Repeats p ∧ w.live = true ∧ w.qos ≠ .atMostOnce ∧
        ∃ rest, t.queued = w :: rest := by
  have hc := step_change t s
  generalize t.step s = x at hc h
  cases hc with
  | registered p' w' rest first queue level live =>
    rcases List.mem_append.mp h with h | h
    · exact .inl (mem_without.mp h).1
    · obtain ⟨rfl, rfl⟩ := Prod.mk.inj (List.mem_singleton.mp h)
      exact .inr ⟨rfl, first, live, level, rest, queue⟩
  | acknowledged s p' q kind waited => exact .inl (mem_without.mp h).1
  | failed e => cases h
  | _ => exact .inl h

/-- Packets in flight have identifiers of their own, each stands for a request that somebody waits
for and that needs an acknowledgement, and none of them is one that may be written again; the
identifier 0 is none. -/
structure Tidy (t : Tracker) : Prop where
  keys : (t.inflight.map (·.1)).Nodup
  live : ∀ p w, (p, w) ∈ t.inflight → w.live = true
  level : ∀ p w, (p, w) ∈ t.inflight → w.qos ≠ .atMostOnce
  apart : ∀ p w, (p, w) ∈ t.inflight → ¬ t.Repeats p

theorem Tidy.without_keys (h : Tidy t) (p : Nat) : ((t.without p).map (·.1)).Nodup :=
  h.keys.sublist (List.filter_sublist.map _)

theorem tidy_of_nil (h : t.inflight = []) : Tidy t where
  keys := by simp [h]
  live p w hm := by simp [h] at hm
  level p w hm := by simp [h] at hm
  apart p w hm := by simp [h] at hm

theorem step_keys (h : Tidy t) (s : Step) : ((t.step s).1.inflight.map (·.1)).Nodup := by
  have hc := step_change t s
  generalize t.step s = x at hc
  cases hc with
  | registered p w rest first queue level live =>
    rw [List.map_append, List.nodup_append]
    refine ⟨h.without_keys p, List.nodup_singleton p, fun a ha b hb => ?_⟩
    obtain ⟨⟨p', w'⟩, hm, rfl⟩ := List.mem_map.mp ha
    rw [List.mem_singleton.mp hb]
    exact (mem_without.mp hm).2
  | acknowledged s p q kind waited => exact h.without_keys p
  | failed e => exact List.nodup_nil
  | _ => exact h.keys

/-- Only a failure abandons packets. -/
theorem step_abandoned (t : Tracker) (s : Step) :
    (t.step s).1.inflight = [] ∨ (t.step s).1.abandoned ⊆ t.abandoned := by
  have hc := step_change t s
  generalize t.step s = x at hc
  cases hc with
  | repeated p again => exact .inr (List.filter_subset_self _)
  | acknowledged s p q kind waited => exact .inr (List.filter_subset_self _)
  | mistaken s p q kind unwaited => exact .inr (List.filter_subset_self _)
  | reset => exact .inr (List.nil_subset _)
  | failed e => exact .inl rfl
  | _ => exact .inr (List.Subset.refl _)

theorem step_tidy (h : Tidy t) (s : Step) : Tidy (t.step s).1 where
  keys := step_keys h s
  live p w hm := (mem_step_inflight hm).elim (h.live p w) fun hw => hw.2.2.1
  level p w hm := (mem_step_inflight hm).elim (h.level p w) fun hw => hw.2.2.2.1
  apart p w hm hr := by
    rcases step_abandoned t s with hi | ha
    · rw [hi] at hm
      cases hm
    · have hr : t.Repeats p := ⟨hr.1, ha hr.2⟩
      exact (mem_step_inflight hm).elim (fun hm => h.apart p w hm hr) fun hw => hw.2.1 hr

theorem run_tidy (steps : List Step) : Tidy (run steps).1 :=
  collect_keeps (P := fun t _ => Tidy t) (o := []) (fun _ _ s h => step_tidy h s) (tidy_of_nil rfl) steps

theorem Tidy.unique (h : Tidy t) {v : Waiter} (hv : (p, v) ∈ t.inflight)
    (hw : (p, w) ∈ t.inflight) : v = w :=
  (Prod.mk.inj (List.inj_on_of_nodup_map h.keys hv hw rfl)).2

/-- What is in flight stays there until everything fails, it is acknowledged, or its identifier is
given to the front of the queue. -/
theorem mem_inflight_step (h : Tidy t) (hm : (p, w) ∈ t.inflight) :
    (p, w) ∈ (t.step s).1.inflight ∨ (∃ e, s = .failAll e) ∨
      acknowledgement w.qos p = some s ∨
        ∃ v rest, s = .written p ∧ ¬ t.Repeats p ∧ t.queued = v :: rest ∧ v.live = true ∧
          v.qos ≠ .atMostOnce := by
  have hc := step_change t s
  generalize t.step s = x at hc
  cases hc with
  | registered p' v rest first queue level live =>
    by_cases hp : p = p'
    · subst hp
      exact .inr (.inr (.inr ⟨v, rest, rfl, first, queue, live, level⟩))
    · exact .inl (List.mem_append_left _ (mem_without.mpr ⟨hm, hp⟩))
  | acknowledged s p' q kind waited =>
    by_cases hp : p = p'
    · subst hp
      obtain ⟨v, hv, rfl⟩ := waited
      rw [h.unique hm (mem_held.mp hv)]
      exact .inr (.inr (.inl kind))
    · exact .inl (mem_without.mpr ⟨hm, hp⟩)
  | failed e => exact .inr (.inl ⟨e, rfl⟩)
  | _ => exact .inl hm

theorem acknowledge_of_mem (h : (p, w) ∈ t.inflight) :
    t.acknowledge p w.qos =
      ({ t with abandoned := t.abandoned.filter (· != p), inflight := t.without p },
        (t.held p).flatMap (complete · .done)) := by
  have hany : (t.held p).any (·.qos == w.qos) = true :=
    List.any_eq_true.mpr ⟨w, mem_held.mpr h, beq_self_eq_true _⟩
  exact if_pos hany

/-- An acknowledgement for which nobody waits, or in the way of another quality of service, changes
nothing in flight. -/
theorem acknowledge_of_ne (h : ∀ w ∈ t.held p, w.qos ≠ q) :
    t.acknowledge p q = ({ t with abandoned := t.abandoned.filter (· != p) }, []) := by
  have hnone : ¬ (t.held p).any (·.qos == q) = true := by
    intro hany
    obtain ⟨w, hw, hq⟩ := List.any_eq_true.mp hany
    exact h w hw (eq_of_beq hq)
  exact if_neg hnone

/-- Where all that is in flight under an identifier is of one quality of service, its
acknowledgement ends it. -/
theorem acknowledge_of_eq (h : ∀ w ∈ t.held p, w.qos = q) :
    t.acknowledge p q =
      ({ t with abandoned := t.abandoned.filter (· != p), inflight := t.without p },
        (t.held p).flatMap (complete · .done)) := by
  cases hh : t.held p with
  | nil =>
    have hfree : ∀ w, (p, w) ∉ t.inflight := by
      intro w hm
      simpa [hh] using mem_held.mpr hm
    rw [without_eq_self hfree]
    exact acknowledge_of_ne fun w hw => by simp [hh] at hw
  | cons w ws =>
    have hw : (p, w) ∈ t.inflight := mem_held.mp (by simp [hh])
    rw [← h w (by simp [hh]), acknowledge_of_mem hw, hh]

/-- The ways in which a step ends a request. -/
inductive Ends (t : Tracker) : Step → Completion → Prop where
  | written (p : Nat) (w : Waiter) (rest : List Waiter) (first : ¬ t.Repeats p)
      (queue : t.queued = w :: rest) (live : w.live = true) (level : w.qos = .atMostOnce) :
      Ends t (.written p) ⟨w.ticket, .done⟩
  | acknowledged (s : Step) (p : Nat) (w : Waiter) (flying : (p, w) ∈ t.inflight)
      (kind : acknowledgement w.qos p = some s) : Ends t s ⟨w.ticket, .done⟩
  | failed (e : PublishError) (k : Nat) (pending : k ∈ t.waiting ∨ k ∈ t.flying) :
      Ends t (.failAll e) ⟨k, .failed e⟩
  | dropped (p : Nat) (v w : Waiter) (rest : List Waiter) (first : ¬ t.Repeats p)
      (queue : t.queued = w :: rest) (live : w.live = true) (level : w.qos ≠ .atMostOnce)
      (flying : (p, v) ∈ t.inflight) : Ends t (.written p) ⟨v.ticket, .dropped⟩

theorem ends_of_mem (h : Tidy t) (hm : c ∈ (t.step s).2) : Ends t s c := by
  have hc := step_change t s
  generalize t.step s = x at hc hm
  cases hc with
  | finished p w rest first queue level =>
    simp only [complete] at hm
    split at hm
    · rw [List.mem_singleton.mp hm]
      exact .written p w rest first queue ‹_› level
    · cases hm
  | registered p w rest first queue level live =>
    obtain ⟨v, hv, _, rfl⟩ := mem_completes.mp hm
    exact .dropped p v w rest first queue live level (mem_held.mp hv)
  | acknowledged s p q kind waited =>
    obtain ⟨v, hv, _, rfl⟩ := mem_completes.mp hm
    obtain ⟨w, hw, rfl⟩ := waited
    obtain rfl := h.unique (mem_held.mp hv) (mem_held.mp hw)
    exact .acknowledged s p v (mem_held.mp hv) kind
  | failed e =>
    obtain ⟨w, hw, live, rfl⟩ := mem_completes.mp hm
    refine .failed e _ ((List.mem_append.mp hw).imp (fun hw => ?_) fun hw => ?_)
    · exact List.mem_map_of_mem (List.mem_filter.mpr ⟨hw, live⟩)
    · obtain ⟨x, hx, rfl⟩ := List.mem_map.mp hw
      exact List.mem_map.mpr ⟨x, hx, rfl⟩
  | _ => cases hm

/-- The requests that a step ends are those, and no others. -/
theorem mem_step (h : Tidy t) : c ∈ (t.step s).2 ↔ Ends t s c := by
  refine ⟨ends_of_mem h, fun he => ?_⟩
  cases he with
  | written p w rest first queue live level =>
    rw [step, written_of_cons first queue, if_pos level]
    simp [complete, live]
  | acknowledged s p w flying kind =>
    rw [step_acknowledgement t kind, acknowledge_of_mem flying]
    exact mem_completes.mpr ⟨w, mem_held.mpr flying, h.live p w flying, rfl⟩
  | failed e k pending =>
    rcases pending with hk | hk
    · obtain ⟨w, hw, rfl⟩ := List.mem_map.mp hk
      obtain ⟨hw, live⟩ := List.mem_filter.mp hw
      exact mem_completes.mpr ⟨w, List.mem_append_left _ hw, live, rfl⟩
    · obtain ⟨⟨p, w⟩, hw, rfl⟩ := List.mem_map.mp hk
      refine mem_completes.mpr ⟨w, List.mem_append_right _ ?_, h.live p w hw, rfl⟩
      exact List.mem_map.mpr ⟨_, hw, rfl⟩
  | dropped p v w rest first queue live level flying =>
    rw [step, written_registers first queue level live]
    exact mem_completes.mpr ⟨v, mem_held.mpr flying, h.live p v flying, rfl⟩

/-- What is in flight under an identifier and what is in flight under others is all there is. -/
theorem flying_split (t : Tracker) (p : Nat) :
    ((t.without p).map (·.2.ticket) ++ (t.held p).map (·.ticket)).Perm t.flying := by
  have hperm := (List.filter_append_perm (·.1 != p) t.inflight).map (·.2.ticket)
  rw [List.map_append] at hperm
  refine List.Perm.trans (List.Perm.of_eq ?_) hperm
  simp only [without, held, List.map_map, Function.comp_def, bne, Bool.not_not]

/-- Those in flight are all told how their requests ended. -/
theorem Tidy.tickets_held (h : Tidy t) (p : Nat) (outcome : Outcome) :
    ((t.held p).flatMap (complete · outcome)).map (·.ticket) = (t.held p).map (·.ticket) := by
  rw [tickets_completes, List.filter_eq_self.mpr fun w hw => h.live p w (mem_held.mp hw)]

theorem waiting_cons (queue : t.queued = w :: rest) :
    t.waiting = (complete w .done).map (·.ticket) ++ (rest.filter (·.live)).map (·.ticket) := by
  rw [waiting, queue, List.filter_cons]
  cases hl : w.live <;> simp [complete, hl]

/-- A step moves requests about and loses none. -/
theorem step_conserves (h : Tidy t) (s : Step) :
    ((t.step s).1.waiting ++ (t.step s).1.flying ++ (t.step s).2.map (·.ticket)).Perm
      (t.waiting ++ t.flying ++ s.request?.toList.map fun _ => t.issued) := by
  have hc := step_change t s
  generalize t.step s = x at hc
  -- counted by number, what moves from one place to another is a matter of arithmetic
  refine List.perm_iff_count.mpr fun k => ?_
  cases hc with
  | tracked q =>
    have hw : (t.track q).waiting = t.waiting ++ [t.issued] := by
      simp [waiting, track, List.filter_append]
    have hf : (t.track q).flying = t.flying := rfl
    simp only [hw, hf, Step.request?, Option.toList_some, List.map_singleton, List.map_nil,
      List.count_append, List.count_nil]
    omega
  | refused q e | unasked p first queue | forgotten k | repeated p again | reset => rfl
  | mistaken s p q kind unwaited =>
    rw [request?_of_acknowledgement kind]
    rfl
  | finished p w rest first queue level =>
    rw [waiting_cons queue]
    simp only [waiting, flying, Step.request?, Option.toList_none, List.map_nil,
      List.count_append, List.count_nil]
    omega
  | passed p w rest first queue level gone =>
    have hw : (complete w .done).map (·.ticket) = [] := by simp [complete, gone]
    rw [waiting_cons queue, hw]
    rfl
  | registered p w rest first queue level live =>
    have hw : (complete w .done).map (·.ticket) = [w.ticket] := by simp [complete, live]
    have hsplit := List.perm_iff_count.mp (flying_split t p) k
    rw [waiting_cons queue, hw, h.tickets_held]
    simp only [waiting, flying, Step.request?, Option.toList_none, List.map_nil, List.map_append,
      List.map_singleton, List.count_append, List.count_nil] at hsplit ⊢
    omega
  | acknowledged s p q kind waited =>
    have hsplit := List.perm_iff_count.mp (flying_split t p) k
    rw [request?_of_acknowledgement kind, h.tickets_held]
    simp only [waiting, flying, Option.toList_none, List.map_nil, List.count_append,
      List.count_nil] at hsplit ⊢
    omega
  | failed e =>
    have hf : ((t.inflight.map (·.2)).filter (·.live)).map (·.ticket) = t.flying := by
      rw [List.filter_eq_self.mpr, List.map_map]
      · rfl
      · rintro w hw
        obtain ⟨⟨p, w⟩, hm, rfl⟩ := List.mem_map.mp hw
        exact h.live p w hm
    have ho : (t.failAll e).2.map (·.ticket) = t.waiting ++ t.flying := by
      rw [← hf, waiting, ← List.map_append, ← List.filter_append]
      exact tickets_completes _ _
    have hw : (t.failAll e).1.waiting = [] := by
      simp [waiting, failAll, List.filter_map, Function.comp_def]
    rw [ho, hw]
    simp [flying, failAll, Step.request?]

/-- Every request that was handed over waits, is in flight or has ended, and no two of these, and it
has not ended twice. -/
theorem run_conserves (steps : List Step) :
    ((run steps).1.waiting ++ (run steps).1.flying ++ (run steps).2.map (·.ticket)).Perm
      (List.range (requests steps).length) := by
  induction steps using List.reverseRecOn with
  | nil => exact List.Perm.refl _
  | append_singleton steps s ih =>
    have hstep := step_conserves (run_tidy steps) s
    have hrange : List.range (requests (steps ++ [s])).length =
        List.range (requests steps).length ++
          s.request?.toList.map fun _ => (requests steps).length := by
      rw [requests_snoc, List.length_append, List.length_map]
      cases s.request? with
      | none => simp
      | some q => simp [List.range_succ]
    rw [run_snoc, hrange]
    rw [run_issued] at hstep
    refine List.perm_iff_count.mpr fun k => ?_
    have hk := List.perm_iff_count.mp hstep k
    have ihk := List.perm_iff_count.mp ih k
    simp only [List.map_append, List.count_append] at hk ihk ⊢
    omega

theorem completed_append_dropped (o : List Completion) :
    (completed o ++ dropped o).Perm (o.map (·.ticket)) := by
  have hperm := (List.filter_append_perm (·.outcome != .dropped) o).map (·.ticket)
  rw [List.map_append] at hperm
  refine List.Perm.trans (List.Perm.of_eq ?_) hperm
  simp only [completed, dropped, bne, Bool.not_not]

/-- The same with what has ended told apart. -/
theorem run_accounted (steps : List Step) :
    ((run steps).1.waiting ++ (run steps).1.flying ++ completed (run steps).2 ++
      dropped (run steps).2).Perm (List.range (requests steps).length) := by
  rw [List.append_assoc _ (completed _)]
  exact ((completed_append_dropped _).append_left _).trans (run_conserves steps)

/-- A request is pending until it is completed or dropped. -/
theorem pending_iff (hk : k < (requests steps).length) :
    k ∈ (run steps).1.waiting ∨ k ∈ (run steps).1.flying ↔
      k ∉ completed (run steps).2 ∧ k ∉ dropped (run steps).2 := by
  have hall := run_accounted steps
  obtain ⟨hrest, _, hdropped⟩ := List.nodup_append.mp (hall.nodup_iff.mpr List.nodup_range)
  obtain ⟨_, _, hcompleted⟩ := List.nodup_append.mp hrest
  rw [← List.mem_append]
  constructor
  · intro hp
    refine ⟨fun hc => hcompleted k hp k hc rfl, fun hd => ?_⟩
    exact hdropped k (List.mem_append_left _ hp) k hd rfl
  · rintro ⟨hc, hd⟩
    have hm := hall.mem_iff.mpr (List.mem_range.mpr hk)
    exact ((List.mem_append.mp hm).resolve_right hd |> List.mem_append.mp).resolve_right hc

/-- Requests are conserved. After any steps each of those that were handed over is in exactly one
place, once: it waits in the queue, is in flight, was completed or was dropped. It is dropped only
by a write that puts the request at the front of the queue under its packet identifier. The requests
that are pending are those that did not end; none is once all have failed, and one that is refused
leaves no trace. No packet in flight is one that may be written again. -/
theorem waiters_conserved (steps : List Step) :
    let t := (run steps).1
    let o := (run steps).2
    (t.waiting ++ t.flying ++ completed o ++ dropped o).Perm
        (List.range (requests steps).length) ∧
      (∀ s k, ⟨k, .dropped⟩ ∈ (t.step s).2 ↔
        ∃ p v w, s = .written p ∧ (p = 0 ∨ p ∉ t.abandoned) ∧ t.queued.head? = some w ∧
          w.live = true ∧ w.qos ≠ .atMostOnce ∧ (p, v) ∈ t.inflight ∧ v.ticket = k) ∧
      t.pending + (completed o).length + (dropped o).length = (requests steps).length ∧
      (∀ e, (t.step (.failAll e)).1.pending = 0) ∧
      (∀ q e, t.step (.track q (some e)) = (t, [])) ∧
      ∀ p w, (p, w) ∈ t.inflight → p ≠ 0 → p ∉ t.abandoned := by
  intro t o
  have htidy : Tidy t := run_tidy steps
  have hall := run_accounted steps
  refine ⟨hall, fun s k => ?_, ?_, fun e => ?_, fun _ _ => rfl, fun p w hm h0 ha => ?_⟩
  · rw [mem_step htidy]
    constructor
    · intro he
      cases he with
      | dropped p v w rest first queue live level flying =>
        refine ⟨p, v, w, rfl, ?_, by rw [queue]; rfl, live, level, flying, rfl⟩
        exact or_iff_not_imp_left.mpr fun h0 ha => first ⟨h0, ha⟩
    · rintro ⟨p, v, w, rfl, first, queue, live, level, flying, rfl⟩
      obtain ⟨rest, hrest⟩ := List.head?_eq_some_iff.mp queue
      refine .dropped p v w rest (fun hr => ?_) hrest live level flying
      exact first.elim hr.1 fun ha => ha hr.2
  · have hlength := hall.length_eq
    simp only [List.length_append, List.length_range] at hlength
    rw [pending_eq]
    omega
  · simp [step, failAll, pending, List.countP_map, Function.comp_def]
  · exact htidy.apart p w hm ⟨h0, ha⟩

end Uplink.Broker.Tracker
