import Uplink.Proofs.Broker.Conservation
import Uplink.Proofs.Broker.Session

namespace Uplink.Broker.Session

open Tracker

variable {s : Session} {m : Move} {p : Nat} {r : Request} {w : Waiter} {t : Tracker}
  {moves : List Move}

/-- A move in which no request is taken for another. -/
structure Faithful (s : Session) (m : Move) : Prop where
  /-- A request ends well by its own write or by the acknowledgement of its own packet. -/
  done : ∀ c ∈ (s.step m).2, c.outcome = .done → s.loop.Finishes c.ticket m
  /-- A packet that is written again takes nobody's place in the queue and ends nothing. -/
  again : ∀ p, m = .again p →
    (s.step m).1.tracker.queued = s.tracker.queued ∧ (s.step m).2 = []

/-- The tracker agrees with the loop that it hears. Of the packets that it expects it has abandoned
those that are due and holds the others in flight. -/
structure Sync (s : Session) : Prop where
  issued : s.tracker.issued = s.loop.issued
  queued : s.tracker.queued = s.loop.unwritten.map Request.waiter
  fresh : ∀ r ∈ s.loop.unwritten, r.repeated = false
  keys : s.loop.packets.Nodup
  named : ∀ p r, (p, r) ∈ s.loop.unacknowledged → p ≠ 0 ∧ r.qos ≠ .atMostOnce
  due : ∀ p ∈ s.loop.due, p ∈ s.loop.packets
  lost : s.loop.connected = false → ∀ p ∈ s.loop.packets, p ∈ s.loop.due
  flying : s.tracker.inflight = s.loop.expected.filter (!s.loop.due.contains ·.1)
  abandoned : ∀ p,
    p ∈ s.tracker.abandoned ↔ p ∈ s.loop.due ∧ p ∈ s.loop.expected.map (·.1)

theorem start_sync (connected : Bool) : Sync (start connected) where
  issued := rfl
  queued := rfl
  fresh := nofun
  keys := List.nodup_nil
  named := nofun
  due := nofun
  lost _ := nofun
  flying := rfl
  abandoned p := by simp [start, empty]

theorem mem_packets {l : Loop} : p ∈ l.packets ↔ ∃ r, (p, r) ∈ l.unacknowledged := by
  simp [Loop.packets]

theorem mem_expected {l : Loop} :
    (p, w) ∈ l.expected ↔
      ∃ r, (p, r) ∈ l.unacknowledged ∧ r.forgotten = false ∧ r.waiter = w := by
  simp only [Loop.expected, List.mem_map, List.mem_filter, Prod.exists, Prod.mk.injEq]
  constructor
  · rintro ⟨p', r, ⟨hm, hr⟩, rfl, rfl⟩
    exact ⟨r, hm, by simpa using hr, rfl⟩
  · rintro ⟨r, hm, hr, rfl⟩
    exact ⟨p, r, ⟨hm, by simpa using hr⟩, rfl, rfl⟩

theorem mem_expected_keys {l : Loop} :
    p ∈ l.expected.map (·.1) ↔ ∃ r, (p, r) ∈ l.unacknowledged ∧ r.forgotten = false := by
  constructor
  · intro h
    obtain ⟨⟨p', w⟩, hm, rfl⟩ := List.mem_map.mp h
    obtain ⟨r, hr, hknown, _⟩ := mem_expected.mp hm
    exact ⟨r, hr, hknown⟩
  · rintro ⟨r, hr, hknown⟩
    exact List.mem_map.mpr ⟨(p, r.waiter), mem_expected.mpr ⟨r, hr, hknown, rfl⟩, rfl⟩

/-- A packet stands for one request. -/
theorem Sync.unique (h : Sync s) {r' : Request} (hr : (p, r) ∈ s.loop.unacknowledged)
    (hr' : (p, r') ∈ s.loop.unacknowledged) : r = r' :=
  (Prod.mk.inj (List.inj_on_of_nodup_map h.keys hr hr' rfl)).2

theorem Sync.held_eq (h : Sync s) (hr : (p, r) ∈ s.loop.unacknowledged) (hw : w ∈ s.tracker.held p) :
    w = r.waiter := by
  have hm := mem_held.mp hw
  rw [h.flying] at hm
  obtain ⟨r', hr', _, rfl⟩ := mem_expected.mp (List.mem_of_mem_filter hm)
  rw [h.unique hr hr']

/-- A packet is not expected any more, whether it is written again or acknowledged. -/
theorem Sync.flying_without (h : Sync s) (p : Nat) :
    s.tracker.without p =
      (s.loop.expected.filter (·.1 != p)).filter (!(s.loop.due.filter (· != p)).contains ·.1) := by
  rw [without, h.flying, List.filter_filter, List.filter_filter]
  refine List.filter_congr fun x _ => ?_
  by_cases hx : x.1 = p <;> simp [hx, Bool.and_comm]

theorem Sync.abandoned_without (h : Sync s) (p p' : Nat) :
    p' ∈ s.tracker.abandoned.filter (· != p) ↔
      p' ∈ s.loop.due.filter (· != p) ∧ p' ∈ (s.loop.expected.filter (·.1 != p)).map (·.1) := by
  have hkeys : (s.loop.expected.filter (·.1 != p)).map (·.1) =
      (s.loop.expected.map (·.1)).filter (· != p) := by
    rw [List.filter_map]
    rfl
  rw [hkeys, List.mem_filter, List.mem_filter, List.mem_filter, h.abandoned]
  tauto

/-- A move after which tracker and loop still agree, and in which no request is taken for another.
-/
structure Kept (s : Session) (m : Move) : Prop where
  sync : Sync (s.step m).1
  faithful : Faithful s m

theorem request_kept (h : Sync s) (q : Qos) (refusal : Option PublishError) :
    Kept s (.request q refusal) := by
  cases refusal with
  | some e => exact ⟨⟨h.issued, h.queued, h.fresh, h.keys, h.named, h.due, h.lost, h.flying,
      h.abandoned⟩, nofun, nofun⟩
  | none =>
    refine ⟨⟨congrArg (· + 1) h.issued, ?_, ?_, h.keys, h.named, h.due, h.lost, h.flying,
      h.abandoned⟩, nofun, nofun⟩
    · change s.tracker.queued ++ _ = (s.loop.unwritten ++ _).map Request.waiter
      rw [h.queued, h.issued, List.map_append]
      rfl
    · intro r hr
      rcases List.mem_append.mp hr with hr | hr
      · exact h.fresh r hr
      · rw [List.mem_singleton.mp hr]

/-- Once everything due has been written again, each packet is taken for a new one. -/
theorem Sync.first (h : Sync s) (hd : s.loop.due = []) (p : Nat) : ¬ s.tracker.Repeats p := by
  rintro ⟨_, ha⟩
  have hm := ((h.abandoned p).mp ha).1
  rw [hd] at hm
  cases hm

theorem Sync.flying_all (h : Sync s) (hd : s.loop.due = []) :
    s.tracker.inflight = s.loop.expected := by
  rw [h.flying, hd]
  exact List.filter_eq_self.mpr fun _ _ => rfl

theorem Sync.queue (h : Sync s) {rest : List Request} (hu : s.loop.unwritten = r :: rest) :
    s.tracker.queued = r.waiter :: rest.map Request.waiter := by
  rw [h.queued, hu]
  rfl

theorem Sync.free (h : Sync s) (hp : p ∉ s.loop.packets) (w : Waiter) :
    (p, w) ∉ s.tracker.inflight := by
  rw [h.flying]
  intro hm
  obtain ⟨r, hr, _⟩ := mem_expected.mp (List.mem_of_mem_filter hm)
  exact hp (mem_packets.mpr ⟨r, hr⟩)

theorem write_unanswered_kept (h : Sync s) (hd : s.loop.due = [])
    {rest : List Request} (hu : s.loop.unwritten = r :: rest) (level : r.qos = .atMostOnce) :
    Kept s (.write p) := by
  have hw : s.tracker.step (.written p) =
      ({ s.tracker with queued := rest.map Request.waiter }, complete r.waiter .done) := by
    rw [Tracker.step, written_of_cons (h.first hd p) (h.queue hu)]
    exact if_pos level
  have hn : s.loop.next (.write p) = { s.loop with unwritten := rest } := by
    simp only [Loop.next, hu, level, ↓reduceIte]
  have hreport : s.loop.report (.write p) = some (.written p) := rfl
  have hstep := step_of_report hreport
  rw [hn, hw] at hstep
  refine ⟨?_, fun c hk ho => ?_, fun _ he => ?_⟩
  · rw [hstep]
    exact ⟨h.issued, rfl, fun r hr => h.fresh r (hu ▸ List.mem_cons_of_mem _ hr), h.keys, h.named,
      h.due, h.lost, h.flying, h.abandoned⟩
  · rw [hstep] at hk
    simp only [complete] at hk
    split at hk
    · rw [List.mem_singleton.mp hk]
      exact ⟨r, by simp [hu], rfl, level⟩
    · cases hk
  · cases he

theorem expected_append (l : Loop) (p : Nat) (r : Request) :
    Loop.expected { l with unacknowledged := l.unacknowledged ++ [(p, r)] } =
      l.expected ++ if r.forgotten then [] else [(p, r.waiter)] := by
  cases hr : r.forgotten <;> simp [Loop.expected, List.filter_append, hr]

theorem write_answered_kept (h : Sync s) (hc : s.loop.connected = true) (hd : s.loop.due = [])
    {rest : List Request} (hu : s.loop.unwritten = r :: rest) (level : r.qos ≠ .atMostOnce)
    (hp : p ≠ 0) (hnew : p ∉ s.loop.packets) : Kept s (.write p) := by
  have hfresh : r.repeated = false := h.fresh r (by simp [hu])
  have hflying := h.flying_all hd
  have hw : s.tracker.step (.written p) =
      ({ s.tracker with
          queued := rest.map Request.waiter
          inflight := s.loop.expected ++ if r.forgotten then [] else [(p, r.waiter)] }, []) := by
    rw [Tracker.step, written_of_cons (h.first hd p) (h.queue hu),
      if_neg (show ¬ r.waiter.qos = .atMostOnce from level), without_eq_self (h.free hnew),
      held_eq_nil (h.free hnew), hflying]
    cases hf : r.failed <;> simp [Request.forgotten, Request.waiter, hf, hfresh, ← hflying]
  have hn : s.loop.next (.write p) =
      { s.loop with
        unwritten := rest, unacknowledged := s.loop.unacknowledged ++ [(p, r)] } := by
    simp only [Loop.next, hu, level, ↓reduceIte]
  have hreport : s.loop.report (.write p) = some (.written p) := rfl
  have hstep := step_of_report hreport
  rw [hn, hw] at hstep
  refine ⟨?_, fun c hk ho => ?_, fun _ he => ?_⟩
  · rw [hstep]
    refine ⟨h.issued, rfl, fun r hr => h.fresh r (hu ▸ List.mem_cons_of_mem _ hr), ?_, ?_, ?_,
      fun ho => ?_, ?_, fun p' => ?_⟩
    · rw [Loop.packets, List.map_append, List.map_singleton]
      exact List.nodup_append_comm.mpr (List.nodup_cons.mpr ⟨hnew, h.keys⟩)
    · intro p' r' hm
      rcases List.mem_append.mp hm with hm | hm
      · exact h.named p' r' hm
      · obtain ⟨rfl, rfl⟩ := Prod.mk.inj (List.mem_singleton.mp hm)
        exact ⟨hp, level⟩
    · intro p' hp'
      rw [hd] at hp'
      cases hp'
    · cases hc.symm.trans ho
    · change _ = List.filter (!s.loop.due.contains ·.1)
        (Loop.expected { s.loop with unacknowledged := s.loop.unacknowledged ++ [(p, r)] })
      rw [expected_append, hd]
      exact (List.filter_eq_self.mpr fun _ _ => rfl).symm
    · rw [h.abandoned]
      simp [hd]
  · rw [hstep] at hk
    cases hk
  · cases he

/-- The first write of a packet is that of the request at the front of both queues. -/
theorem write_kept (h : Sync s) (ha : s.loop.allows (.write p) = true) : Kept s (.write p) := by
  simp only [Loop.allows, Bool.and_eq_true_iff, List.isEmpty_iff] at ha
  obtain ⟨⟨hc, hd⟩, hfits⟩ := ha
  cases hu : s.loop.unwritten with
  | nil => simp [hu] at hfits
  | cons r rest =>
    rw [hu] at hfits
    by_cases level : r.qos = .atMostOnce
    · exact write_unanswered_kept h hd hu level
    · simp only [if_neg level, Bool.and_eq_true_iff] at hfits
      exact write_answered_kept h hc hd hu level (bne_iff_ne.mp hfits.1) (by simpa using hfits.2)

theorem expected_acknowledged (l : Loop) (p : Nat) :
    (l.next (.acknowledge p)).expected = l.expected.filter (·.1 != p) := by
  simp only [Loop.expected, Loop.next, List.filter_map, Function.comp_def, List.filter_filter,
    Bool.and_comm]

/-- An acknowledgement ends the request of its own packet or nothing. -/
theorem acknowledge_kept (h : Sync s) (ha : s.loop.allows (.acknowledge p) = true) :
    Kept s (.acknowledge p) := by
  obtain ⟨hc, hp⟩ := Bool.and_eq_true_iff.mp ha
  obtain ⟨r, hr⟩ := mem_packets.mp (List.contains_iff_mem.mp hp)
  -- the tracker may hold nothing under `p`, but nobody other than `r`
  have hlookup : s.loop.unacknowledged.lookup p = some r := by
    cases hl : s.loop.unacknowledged.lookup p with
    | none =>
      have := List.lookup_eq_none_iff.mp hl _ hr
      simp at this
    | some r' =>
      obtain ⟨xs, ys, hsplit, _⟩ := List.lookup_eq_some_iff.mp hl
      have hr' : (p, r') ∈ s.loop.unacknowledged := by simp [hsplit]
      rw [h.unique hr hr']
  obtain ⟨heard, hheard⟩ := exists_acknowledgement p (h.named p r hr).2
  have hreport : s.loop.report (.acknowledge p) = some heard := by
    simp [Loop.report, hlookup, hheard]
  have hstep := step_of_report hreport
  rw [step_acknowledgement s.tracker hheard,
    acknowledge_of_eq fun w hw => by rw [h.held_eq hr hw]; rfl] at hstep
  refine ⟨?_, fun c hk ho => ?_, fun _ he => ?_⟩
  · rw [hstep]
    refine ⟨h.issued, h.queued, h.fresh, ?_, ?_, fun p' hp' => ?_, fun ho => ?_, ?_, fun p' => ?_⟩
    · exact h.keys.sublist (List.filter_sublist.map _)
    · exact fun p' r' hm => h.named p' r' (List.mem_of_mem_filter hm)
    · obtain ⟨hm, hne⟩ := List.mem_filter.mp hp'
      obtain ⟨r', hr'⟩ := mem_packets.mp (h.due p' hm)
      exact mem_packets.mpr ⟨r', List.mem_filter.mpr ⟨hr', hne⟩⟩
    · cases hc.symm.trans ho
    · rw [expected_acknowledged]
      exact h.flying_without p
    · rw [expected_acknowledged]
      exact h.abandoned_without p p'
  · rw [hstep] at hk
    obtain ⟨w, hw, _, rfl⟩ := mem_completes.mp hk
    exact ⟨(p, r), hr, rfl, by rw [h.held_eq hr hw]; rfl⟩
  · cases he

/-- All that waits fails, and whatever the tracker expected has become due. -/
theorem lose_kept (h : Sync s) (e : PublishError) : Kept s (.lose e) := by
  have hqueued : (s.tracker.failAll e).1.queued =
      (s.loop.unwritten.map ({ · with failed := true })).map Request.waiter := by
    simp [failAll, h.queued, Request.waiter, Function.comp_def]
  have hpackets : ∀ p, p ∈ s.loop.expected.map (·.1) → p ∈ s.loop.packets := by
    intro p hp
    obtain ⟨r, hr, _⟩ := mem_expected_keys.mp hp
    exact mem_packets.mpr ⟨r, hr⟩
  refine ⟨⟨h.issued, hqueued, ?_, h.keys, h.named, fun _ hp => hp, fun _ _ hp => hp, ?_,
    fun p => ?_⟩, fun c hk ho => ?_, fun _ he => ?_⟩
  · intro r hr
    obtain ⟨r', hr', rfl⟩ := List.mem_map.mp hr
    exact h.fresh r' hr'
  · refine (List.filter_eq_nil_iff.mpr fun x hx => ?_).symm
    change ¬ (!s.loop.packets.contains x.1) = true
    simpa using hpackets x.1 (List.mem_map_of_mem hx)
  · change p ∈ s.tracker.abandoned ++
        (s.tracker.inflight.map (·.1)).filter (!s.tracker.abandoned.contains ·) ↔
      p ∈ s.loop.packets ∧ p ∈ s.loop.expected.map (·.1)
    have hkeys : s.tracker.inflight.map (·.1) =
        (s.loop.expected.map (·.1)).filter (!s.loop.due.contains ·) := by
      rw [h.flying, List.filter_map]
      rfl
    have hp := hpackets p
    simp only [List.mem_append, List.mem_filter, h.abandoned, hkeys, Bool.not_eq_true',
      List.contains_eq_mem, decide_eq_false_iff_not]
    tauto
  · obtain ⟨_, _, _, rfl⟩ := mem_completes.mp hk
    cases ho
  · cases he

theorem resume_kept (h : Sync s) : Kept s .resume :=
  ⟨⟨h.issued, h.queued, h.fresh, h.keys, h.named, h.due, nofun, h.flying, h.abandoned⟩, nofun,
    nofun⟩

theorem restart_kept (h : Sync s) (ha : s.loop.allows .restart = true) : Kept s .restart := by
  have hc : s.loop.connected = false := by simpa [Loop.allows] using ha
  refine ⟨⟨h.issued, h.queued, h.fresh, List.nodup_nil, nofun, nofun, nofun, ?_, fun p => ?_⟩, nofun,
    nofun⟩
  · change s.tracker.inflight = []
    rw [h.flying]
    refine List.filter_eq_nil_iff.mpr fun x hx => ?_
    obtain ⟨r, hr, _⟩ := mem_expected.mp hx
    have hdue := h.lost hc x.1 (mem_packets.mpr ⟨r, hr⟩)
    simpa using List.contains_iff_mem.mpr hdue
  · change p ∈ [] ↔ p ∈ [] ∧ p ∈ []
    simp

theorem Sync.abandoned_iff (h : Sync s) (hd : p ∈ s.loop.due)
    (hr : (p, r) ∈ s.loop.unacknowledged) : p ∈ s.tracker.abandoned ↔ r.forgotten = false := by
  rw [h.abandoned, mem_expected_keys]
  constructor
  · rintro ⟨_, r', hr', hknown⟩
    rw [h.unique hr hr']
    exact hknown
  · exact fun hknown => ⟨hd, r, hr, hknown⟩

/-- A packet that is expected, or that meets an empty queue, is only not expected any more. -/
theorem written_again (hp : p ≠ 0) (h : p ∈ t.abandoned ∨ t.queued = []) :
    t.written p = ({ t with abandoned := t.abandoned.filter (· != p) }, []) := by
  by_cases hr : t.Repeats p
  · exact written_of_repeats hr
  · have hnot : p ∉ t.abandoned := fun ha => hr ⟨hp, ha⟩
    have hsame : t.abandoned.filter (· != p) = t.abandoned := by
      refine List.filter_eq_self.mpr fun a ha => bne_iff_ne.mpr ?_
      rintro rfl
      exact hnot ha
    rw [hsame]
    exact written_of_nil hr (h.resolve_left hnot)

theorem packets_again (l : Loop) (p : Nat) : (l.next (.again p)).packets = l.packets := by
  simp [Loop.packets, Loop.next]

theorem expected_again (l : Loop) (p : Nat) :
    (l.next (.again p)).expected = l.expected.filter (·.1 != p) := by
  simp only [Loop.expected, Loop.next, List.filter_map, List.map_map, List.filter_filter]
  refine congrArg (List.map _) (List.filter_congr fun x _ => ?_)
  simp only [Function.comp_apply, Request.forgotten, Bool.not_or, bne]
  ac_rfl

/-- Unless a forgotten packet meets a waiting request, it is expected or there is nobody whose
place it could take. -/
theorem again_kept (h : Sync s) (ha : s.loop.allows (.again p) = true)
    (hs : ¬ s.loop.Slips (.again p)) : Kept s (.again p) := by
  obtain ⟨hc, hp⟩ := Bool.and_eq_true_iff.mp ha
  have hd : p ∈ s.loop.due := List.contains_iff_mem.mp hp
  obtain ⟨r, hr⟩ := mem_packets.mp (h.due p hd)
  have hfits : p ∈ s.tracker.abandoned ∨ s.tracker.queued = [] := by
    by_cases hu : s.loop.unwritten = []
    · right
      rw [h.queued, hu]
      rfl
    · left
      rw [h.abandoned_iff hd hr]
      by_contra hf
      exact hs ⟨hu, (p, r), hr, rfl, by simpa using hf⟩
  -- a packet that is due is not in flight
  have hflying : s.tracker.without p = s.tracker.inflight := by
    refine without_eq_self fun w hm => ?_
    rw [h.flying] at hm
    have hout := (List.mem_filter.mp hm).2
    simp [hd] at hout
  have hreport : s.loop.report (.again p) = some (.written p) := rfl
  have hstep := step_of_report hreport
  rw [Tracker.step, written_again (h.named p r hr).1 hfits] at hstep
  refine ⟨?_, fun c hk ho => ?_, fun _ _ => ?_⟩
  · rw [hstep]
    refine ⟨h.issued, h.queued, h.fresh, ?_, ?_, fun p' hp' => ?_, fun ho => ?_, ?_, fun p' => ?_⟩
    · rw [packets_again]
      exact h.keys
    · intro p' r' hm
      obtain ⟨⟨_, r''⟩, hr'', he⟩ := List.mem_map.mp hm
      cases he
      exact h.named _ r'' hr''
    · rw [packets_again]
      exact h.due p' (List.mem_of_mem_filter hp')
    · cases hc.symm.trans ho
    · rw [expected_again, ← hflying]
      exact h.flying_without p
    · rw [expected_again]
      exact h.abandoned_without p p'
  · rw [hstep] at hk
    cases hk
  · rw [hstep]
    exact ⟨rfl, rfl⟩

theorem step_kept (h : Sync s) (ha : s.loop.allows m = true) (hs : ¬ s.loop.Slips m) : Kept s m := by
  cases m with
  | request q refusal => exact request_kept h q refusal
  | write p => exact write_kept h ha
  | again p => exact again_kept h ha hs
  | acknowledge p => exact acknowledge_kept h ha
  | lose e => exact lose_kept h e
  | resume => exact resume_kept h
  | restart => exact restart_kept h ha

/-- A forgotten packet takes the place of the request at the front of the queue. -/
theorem slip_unfaithful (h : Sync s) (ha : s.loop.allows m = true) (hs : s.loop.Slips m) :
    ¬ Faithful s m := by
  cases m with
  | again p =>
    obtain ⟨hu, ⟨p', r⟩, hr, rfl, hf⟩ := hs
    have hd := List.contains_iff_mem.mp (Bool.and_eq_true_iff.mp ha).2
    have hq : s.tracker.queued ≠ [] := by
      rw [h.queued]
      exact fun he => hu (List.map_eq_nil_iff.mp he)
    have htakes : s.tracker.Takes (.written p') := by
      refine ⟨?_, hq⟩
      rintro ⟨_, hm⟩
      rw [h.abandoned_iff hd hr, hf] at hm
      cases hm
    intro hfaithful
    have hsame : (s.step (.again p')).1.tracker.queued.length = s.tracker.queued.length :=
      congrArg List.length (hfaithful.again p' rfl).1
    have hpos := List.length_pos_iff.mpr hq
    have hout : (s.step (.again p')).1.tracker.queued.length = s.tracker.queued.length - 1 := by
      rw [step_of_report rfl, step_queued, if_pos htakes]
      simp [Step.request?]
    omega
  | request _ _ | write _ | acknowledge _ | lose _ | resume | restart => exact hs.elim

/-- A slip is unfaithful itself, so only the moves before the first one have to keep loop and
tracker together. -/
theorem throughout_faithful_iff (h : Sync s)
    (ha : Throughout (fun s m => s.loop.allows m = true) s moves) :
    Throughout Faithful s moves ↔ Throughout (fun s m => ¬ s.loop.Slips m) s moves := by
  induction moves generalizing s with
  | nil => exact Iff.rfl
  | cons m rest ih =>
    constructor
    · rintro ⟨hm, hrest⟩
      have hs : ¬ s.loop.Slips m := fun hs => slip_unfaithful h ha.1 hs hm
      exact ⟨hs, (ih (step_kept h ha.1 hs).sync ha.2).mp hrest⟩
    · rintro ⟨hs, hrest⟩
      have hm := step_kept h ha.1 hs
      exact ⟨hm.faithful, (ih hm.sync ha.2).mpr hrest⟩

/-- Whatever the loop does, the requests end by their own packets exactly as long as no forgotten
packet is written again while a request waits. -/
theorem faithful_iff_no_slip (connected : Bool) (moves : List Move)
    (lawful : Throughout (fun s m => s.loop.allows m = true) (start connected) moves) :
    Throughout Faithful (start connected) moves ↔
      Throughout (fun s m => ¬ s.loop.Slips m) (start connected) moves :=
  throughout_faithful_iff (start_sync connected) lawful

/-- A connection is lost under a request, the packet is written again before the next one, and both
are acknowledged. -/
def recovered : List Move :=
  [.request .atLeastOnce none, .write 1, .lose .disconnected, .request .exactlyOnce none, .resume,
    .again 1, .write 2, .acknowledge 1, .acknowledge 2, .request .atMostOnce none, .write 0]

theorem recovered_faithful :
    Throughout (fun s m => s.loop.allows m = true) (start true) recovered ∧
      Throughout Faithful (start true) recovered :=
  ⟨by decide, (faithful_iff_no_slip true recovered (by decide)).mpr (by decide)⟩

/-- The connection is lost twice under one request, and the second time its packet is written again
another request waits. -/
def lostTwice : List Move :=
  [.request .atLeastOnce none, .write 1, .lose .disconnected, .resume, .again 1, .lose .disconnected,
    .request .atLeastOnce none, .resume, .again 1, .acknowledge 1]

/-- The other request ends by an acknowledgement before anything of it has been written. -/
theorem lostTwice_done_by_another :
    Throughout (fun s m => s.loop.allows m = true) (start true) lostTwice ∧
      ¬ Throughout
        (fun s m => ∀ c ∈ (s.step m).2, c.outcome = .done → s.loop.Finishes c.ticket m)
        (start true) lostTwice := by
  decide

/-- So it does where the packet is that of a request that had failed before it was written. -/
example :
    ¬ Throughout
      (fun s m => ∀ c ∈ (s.step m).2, c.outcome = .done → s.loop.Finishes c.ticket m)
      (start true)
      [.request .atLeastOnce none, .lose .disconnected, .resume, .write 1, .lose .disconnected,
        .request .atLeastOnce none, .resume, .again 1, .acknowledge 1] := by
  decide

end Uplink.Broker.Session
