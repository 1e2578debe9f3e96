import Uplink.Broker.Client
import Uplink.Proofs.Broker.Completion

namespace Uplink.Broker

/-- What the caller of a publication is told. One that was dropped was told nothing else. -/
def Outcome.result : Outcome → Except PublishError Unit
  | .done => .ok ()
  | .failed e => .error e
  | .dropped => .error .disconnected

/-- Whether there is a connection after an event, for those that decide it. -/
def LoopEvent.link? : LoopEvent → Option Bool
  | .connected _ => some true
  | .disconnectSent | .lost _ => some false
  | .written _ | .acknowledged _ | .released _ | .other => none

namespace Client

variable {c : Client} {s : Step} {steps : List Step} {k : Nat} {outcome : Outcome}
  {e : PublishError}

inductive Step where
  /-- Somebody publishes; there is room for a request or not. -/
  | publish (qos : Qos) (room : Bool)
  | poll (e : LoopEvent)
  /-- Somebody disconnects. -/
  | disconnect
  /-- The first disconnect returns. The loop has stopped in time, or else it is stopped now. -/
  | stopped
  deriving DecidableEq, Repr

def step (c : Client) : Step → Client
  | .publish qos room => (c.publish qos room).1
  | .poll e => c.poll e
  | .disconnect => c.beginDisconnect
  | .stopped => c.endDisconnect

/-- The event that the loop reports in a step, which it does while it runs. -/
def polled (c : Client) : Step → List LoopEvent
  | .poll e => if c.running then [e] else []
  | _ => []

/-- The client after steps from its start, and the events that its loop has reported. -/
def run (steps : List Step) : Client × List LoopEvent :=
  collect (fun c s => (c.step s, c.polled s)) start steps

theorem run_snoc (steps : List Step) (s : Step) :
    run (steps ++ [s]) =
      ((run steps).1.step s, (run steps).2 ++ (run steps).1.polled s) :=
  collect_snoc _ start steps s

/-- The first disconnect has returned: it was called and stopped later. -/
def Returned (steps : List Step) : Prop :=
  ∃ before after, steps = before ++ .stopped :: after ∧ .disconnect ∈ before

/-- A request that was taken and has not ended. -/
def Unfinished (c : Client) (k : Nat) : Prop := k < c.tracker.issued ∧ c.outcome? k = none

/-- What all unfinished requests fail with in a step, if they do. -/
def failing? (c : Client) : Step → Option PublishError
  | .poll (.lost reason) => if c.running then some (.connectionLost reason) else none
  | .poll .disconnectSent => if c.running then some .disconnected else none
  | .stopped => if c.stopping = .asked then some .disconnected else none
  | _ => none

/-- What the tracker is told in a step. A loop that is to stop fails twice what is left when it
loses the connection. -/
def tracked (c : Client) : Step → List Tracker.Step
  | .publish qos room =>
    match (c.publish qos room).2 with
    | .ok _ => [.track qos none]
    | .error _ => []
  | .poll e =>
    if c.running then
      match e with
      | .connected sessionPresent => if sessionPresent then [] else [.resetSession]
      | .written packet => [.written packet]
      | .acknowledged packet => [.acknowledged packet]
      | .released packet => [.released packet]
      | .disconnectSent => [.failAll .disconnected]
      | .lost reason =>
        .failAll (.connectionLost reason) ::
          if c.stopping = .no then [] else [.failAll .disconnected]
      | .other => []
    else []
  | .disconnect => []
  | .stopped => if c.stopping = .asked then [.failAll .disconnected] else []

theorem step_tracked (c : Client) (s : Step) :
    (c.step s).tracker = (collect Tracker.step c.tracker (c.tracked s)).1 ∧
      (c.step s).completions =
        c.completions ++ (collect Tracker.step c.tracker (c.tracked s)).2 := by
  cases s with
  | publish qos room =>
    simp only [step, tracked, publish]
    split
    · simp
    · split
      · simp
      · split
        · simp
        · simp [collect, Tracker.step]
  | poll e =>
    simp only [step, poll, tracked]
    cases c.running with
    | false => simp
    | true =>
      cases e with
      | connected sessionPresent => cases sessionPresent <;> simp [collect, Tracker.step]
      | lost reason =>
        by_cases hs : c.stopping = .no
        · simp [hs, note, collect, Tracker.step]
        · simp [hs, note, endLoop, collect, Tracker.step]
      | _ => simp [note, endLoop, collect, Tracker.step]
  | disconnect =>
    simp only [step, beginDisconnect, tracked]
    split <;> simp
  | stopped =>
    simp only [step, endDisconnect, tracked]
    split <;> simp [note, collect, Tracker.step]

/-- A client's tracker has gone through the steps of a tracker, and the requests that ended are
those that ended in them. -/
theorem run_tracked (steps : List Step) :
    ∃ told, (run steps).1.tracker = (Tracker.run told).1 ∧
      (run steps).1.completions = (Tracker.run told).2 := by
  induction steps using List.reverseRecOn with
  | nil => exact ⟨[], rfl, rfl⟩
  | append_singleton steps s ih =>
    obtain ⟨told, ht, hc⟩ := ih
    have hrun : Tracker.run (told ++ (run steps).1.tracked s) =
        ((collect Tracker.step (run steps).1.tracker ((run steps).1.tracked s)).1,
          (run steps).1.completions ++
            (collect Tracker.step (run steps).1.tracker ((run steps).1.tracked s)).2) := by
      rw [ht, hc]
      exact collect_append Tracker.step .empty told _
    obtain ⟨htracker, hcompletions⟩ := step_tracked (run steps).1 s
    refine ⟨told ++ (run steps).1.tracked s, ?_, ?_⟩
    · rw [run_snoc, hrun]
      exact htracker
    · rw [run_snoc, hrun]
      exact hcompletions

/-- The requests that a client took are all there, each at one place: it waits to be written, is in
flight or has ended. -/
structure Accounted (c : Client) : Prop where
  tidy : c.tracker.Tidy
  whole : (c.tracker.waiting ++ c.tracker.flying ++ c.completions.map (·.ticket)).Perm
    (List.range c.tracker.issued)

theorem run_accounted (steps : List Step) : Accounted (run steps).1 := by
  obtain ⟨told, ht, hc⟩ := run_tracked steps
  constructor
  · rw [ht]
    exact Tracker.run_tidy told
  · rw [ht, hc, Tracker.run_issued]
    exact Tracker.run_conserves told

theorem Accounted.tickets_nodup (h : Accounted c) : (c.completions.map (·.ticket)).Nodup :=
  (List.nodup_append.mp (h.whole.nodup_iff.mpr List.nodup_range)).2.1

theorem outcome?_eq_none : c.outcome? k = none ↔ k ∉ c.completions.map (·.ticket) := by
  rw [outcome?, Option.map_eq_none_iff, List.find?_eq_none]
  simp

theorem mem_of_outcome? (h : c.outcome? k = some outcome) : ⟨k, outcome⟩ ∈ c.completions := by
  obtain ⟨x, hx, rfl⟩ := Option.map_eq_some_iff.mp h
  have hk := List.find?_some hx
  have hk : x.ticket = k := beq_iff_eq.mp hk
  subst hk
  exact List.mem_of_find?_eq_some hx

theorem Accounted.outcome?_eq_some (h : Accounted c) :
    c.outcome? k = some outcome ↔ ⟨k, outcome⟩ ∈ c.completions := by
  constructor
  · exact mem_of_outcome?
  · intro hm
    cases ho : c.outcome? k with
    | none => exact absurd (List.mem_map.mpr ⟨_, hm, rfl⟩) (outcome?_eq_none.mp ho)
    | some other =>
      have he := List.inj_on_of_nodup_map h.tickets_nodup (mem_of_outcome? ho) hm rfl
      cases he
      rfl

theorem Accounted.unfinished_iff (h : Accounted c) :
    c.Unfinished k ↔ k ∈ c.tracker.waiting ∨ k ∈ c.tracker.flying := by
  obtain ⟨_, _, hapart⟩ := List.nodup_append.mp (h.whole.nodup_iff.mpr List.nodup_range)
  rw [Unfinished, outcome?_eq_none, ← List.mem_range, ← h.whole.mem_iff, ← List.mem_append]
  constructor
  · rintro ⟨hk, hc⟩
    exact (List.mem_append.mp hk).resolve_right hc
  · intro hk
    exact ⟨List.mem_append_left _ hk, fun hc => hapart k hk k hc rfl⟩

/-- A step fails everything, or it tells the tracker of no failure. -/
theorem failing_cases (c : Client) (s : Step) :
    (∃ e rest, c.failing? s = some e ∧ c.tracked s = .failAll e :: rest) ∨
      c.failing? s = none ∧ ∀ x ∈ c.tracked s, ∀ e, x ≠ .failAll e := by
  cases s with
  | publish qos room =>
    right
    refine ⟨rfl, ?_⟩
    intro x hx e
    rw [tracked] at hx
    split at hx
    · rw [List.mem_singleton] at hx
      subst hx
      nofun
    · cases hx
  | poll event =>
    cases hr : c.running with
    | false =>
      right
      cases event <;> simp [failing?, tracked, hr]
    | true =>
      cases event with
      | lost reason =>
        left
        refine ⟨.connectionLost reason,
          if c.stopping = .no then [] else [.failAll .disconnected], ?_, ?_⟩
        · simp [failing?, hr]
        · simp [tracked, hr]
      | disconnectSent => exact .inl ⟨.disconnected, [], by simp [failing?, hr], by simp [tracked, hr]⟩
      | connected sessionPresent =>
        right
        cases sessionPresent <;> simp [failing?, tracked, hr]
      | _ =>
        right
        simp [failing?, tracked, hr]
  | disconnect => exact .inr ⟨rfl, by simp [tracked]⟩
  | stopped =>
    by_cases hs : c.stopping = .asked
    · exact .inl ⟨.disconnected, [], by simp [failing?, hs], by simp [tracked, hs]⟩
    · right
      simp [failing?, tracked, hs]

theorem step_completions (c : Client) (s : Step) :
    c.completions ⊆ (c.step s).completions := by
  rw [(step_tracked c s).2]
  exact List.subset_append_left _ _

/-- Everything unfinished fails with what a step fails it with. -/
theorem failed_of_failing (h : Accounted c) (hs : c.failing? s = some e) (hk : c.Unfinished k) :
    ⟨k, .failed e⟩ ∈ (c.step s).completions := by
  have hends : ⟨k, .failed e⟩ ∈ (c.tracker.step (.failAll e)).2 :=
    (Tracker.mem_step h.tidy).mpr (.failed e k (h.unfinished_iff.mp hk))
  rcases failing_cases c s with ⟨e', rest, he, htold⟩ | ⟨hnone, _⟩
  · rw [he] at hs
    cases hs
    rw [(step_tracked c s).2, htold, collect_cons]
    exact List.mem_append_right _ (List.mem_append_left _ hends)
  · rw [hnone] at hs
    cases hs

/-- What ends in a step ends by something that the tracker is told in it. -/
theorem ends_of_mem {x : Completion} (h : Accounted c) (hm : x ∈ (c.step s).completions) :
    x ∈ c.completions ∨ ∃ t, ∃ y ∈ c.tracked s, Tracker.Ends t y x := by
  rw [(step_tracked c s).2] at hm
  rcases List.mem_append.mp hm with hm | hm
  · exact .inl hm
  · right
    obtain ⟨before, y, after, hy, hm⟩ := mem_collect hm
    have htidy : (collect Tracker.step c.tracker before).1.Tidy :=
      collect_keeps (P := fun t _ => Tracker.Tidy t) (o := [])
        (fun _ _ s ht => Tracker.step_tidy ht s) h.tidy before
    refine ⟨_, y, ?_, Tracker.ends_of_mem htidy hm⟩
    rw [hy]
    simp

/-- In any other step a request may only succeed or be dropped. -/
theorem ends_of_not_failing (h : Accounted c) (hs : c.failing? s = none) (hk : c.Unfinished k)
    (hm : ⟨k, outcome⟩ ∈ (c.step s).completions) : outcome = .done ∨ outcome = .dropped := by
  rcases failing_cases c s with ⟨e, rest, he, _⟩ | ⟨_, htold⟩
  · rw [hs] at he
    cases he
  · rcases ends_of_mem h hm with hm | ⟨t, y, hy, hends⟩
    · exact absurd (List.mem_map.mpr ⟨_, hm, rfl⟩) (outcome?_eq_none.mp hk.2)
    · cases hends with
      | written p w rest first queue live level => exact .inl rfl
      | acknowledged x p w flying kind => exact .inl rfl
      | failed e k pending => exact absurd rfl (htold _ hy e)
      | dropped p v w rest first queue live level flying => exact .inr rfl

/-- A failure is that of a disconnect or that of a connection which the loop has just lost. -/
theorem reason_of_tracked (h : .failAll e ∈ c.tracked s) :
    e = .disconnected ∨ ∃ reason, e = .connectionLost reason ∧ .lost reason ∈ c.polled s := by
  cases s with
  | publish qos room =>
    rw [tracked] at h
    split at h <;> simp at h
  | poll event =>
    simp only [tracked] at h
    split at h
    · next hr =>
      cases event with
      | connected sessionPresent => cases sessionPresent <;> simp at h
      | lost reason =>
        rcases List.mem_cons.mp h with he | h
        · cases he
          exact .inr ⟨reason, rfl, by simp [polled, hr]⟩
        · left
          split at h
          · cases h
          · rw [List.mem_singleton] at h
            cases h
            rfl
      | disconnectSent =>
        rw [List.mem_singleton] at h
        cases h
        exact .inl rfl
      | _ => simp at h
    · cases h
  | disconnect => cases h
  | stopped =>
    rw [tracked] at h
    split at h
    · rw [List.mem_singleton] at h
      cases h
      exact .inl rfl
    · cases h

/-- A request fails because somebody disconnects, or with an error that the loop has reported. -/
theorem run_reasons (steps : List Step) (hm : ⟨k, .failed e⟩ ∈ (run steps).1.completions) :
    e = .disconnected ∨ ∃ reason, e = .connectionLost reason ∧ .lost reason ∈ (run steps).2 := by
  induction steps using List.reverseRecOn with
  | nil => cases hm
  | append_singleton steps s ih =>
    rw [run_snoc] at hm ⊢
    rcases ends_of_mem (run_accounted steps) hm with hm | ⟨t, y, hy, hends⟩
    · apply (ih hm).imp_right
      intro ⟨reason, he, hl⟩
      exact ⟨reason, he, List.mem_append_left _ hl⟩
    · cases hends
      apply (reason_of_tracked hy).imp_right
      intro ⟨reason, he, hl⟩
      exact ⟨reason, he, List.mem_append_right _ hl⟩

theorem step_stopping (c : Client) (s : Step) :
    (c.step s).stopping =
      if s = .disconnect ∧ c.stopping = .no then .asked
      else if s = .stopped ∧ c.stopping = .asked then .done
      else c.stopping := by
  cases s with
  | publish qos room =>
    simp only [step, publish]
    split
    · simp
    · split
      · simp
      · split <;> simp
  | poll event =>
    simp only [step, poll]
    split
    · simp
    · cases event with
      | lost reason =>
        dsimp only
        split <;> simp [note, endLoop]
      | _ => simp [note, endLoop]
  | disconnect =>
    simp only [step, beginDisconnect]
    split <;> simp [*]
  | stopped =>
    simp only [step, endDisconnect]
    split <;> simp [*]

theorem returned_snoc :
    Returned (steps ++ [s]) ↔ Returned steps ∨ s = .stopped ∧ .disconnect ∈ steps := by
  constructor
  · rintro ⟨before, after, hsplit, hm⟩
    rcases Tracker.snoc_eq_split.mp hsplit with ⟨rfl, rfl, _⟩ | ⟨rest, _, rfl⟩
    · exact .inr ⟨rfl, hm⟩
    · exact .inl ⟨before, rest, rfl, hm⟩
  · rintro (⟨before, after, rfl, hm⟩ | ⟨rfl, hm⟩)
    · exact ⟨before, after ++ [s], by simp, hm⟩
    · exact ⟨steps, [], rfl, hm⟩

/-- How far the first disconnect is, read off the steps. -/
theorem run_stopping (steps : List Step) :
    ((run steps).1.stopping = .no ↔ .disconnect ∉ steps) ∧
      ((run steps).1.stopping = .done ↔ Returned steps) := by
  induction steps using List.reverseRecOn with
  | nil =>
    refine ⟨by simp [run, start], ?_⟩
    constructor
    · intro h
      cases h
    · rintro ⟨before, after, h, _⟩
      simp at h
  | append_singleton steps s ih =>
    obtain ⟨hno, hdone⟩ := ih
    rw [run_snoc, step_stopping, returned_snoc, List.mem_append, List.mem_singleton]
    cases hc : (run steps).1.stopping with
    | no =>
      rw [hc] at hno hdone
      have hout := hno.mp rfl
      have hret : ¬ Returned steps := fun hr => by cases hdone.mpr hr
      by_cases hs : s = .disconnect
      · simp [hs, hret]
      · simp [hs, Ne.symm hs, hout, hret]
    | asked =>
      rw [hc] at hno hdone
      have hin : .disconnect ∈ steps := by
        by_contra hout
        cases hno.mpr hout
      have hret : ¬ Returned steps := fun hr => by cases hdone.mpr hr
      by_cases hs : s = .stopped
      · simp [hs, hin]
      · simp [hs, hin, hret]
    | done =>
      rw [hc] at hno hdone
      have hin : .disconnect ∈ steps := by
        by_contra hout
        cases hno.mpr hout
      simp [hin, hdone.mp rfl]

/-- A client whose disconnect has returned has no loop, and one without a loop has no connection and
nothing unfinished. -/
structure Orderly (c : Client) : Prop where
  halted : c.stopping = .done → c.running = false
  quiet : c.running = false →
    c.connected = false ∧ c.tracker.waiting = [] ∧ c.tracker.flying = []

theorem Orderly.of_running (hr : c.running = true) (hs : c.stopping ≠ .done) : Orderly c where
  halted hd := absurd hd hs
  quiet hf := by
    rw [hr] at hf
    cases hf

theorem waiting_failAll (t : Tracker) (e : PublishError) : (t.failAll e).1.waiting = [] := by
  simp [Tracker.waiting, Tracker.failAll, List.filter_map, Function.comp_def]

theorem endLoop_orderly (h : c.connected = false) : Orderly c.endLoop where
  halted _ := rfl
  quiet _ := ⟨h, waiting_failAll c.tracker .disconnected, rfl⟩

theorem step_orderly (h : Orderly c) (s : Step) : Orderly (c.step s) := by
  cases s with
  | publish qos room =>
    rw [step, publish]
    split
    · exact h
    · next hs =>
      split
      · exact h
      · next hc =>
        split
        · exact h
        · -- a client that is connected has a loop
          apply Orderly.of_running
          · show c.running = true
            cases hr : c.running with
            | true => rfl
            | false => simp [(h.quiet hr).1] at hc
          · show c.stopping ≠ .done
            intro hd
            exact hs (by simp [hd])
  | poll event =>
    simp only [step, poll]
    split
    · exact h
    · next hr =>
      have hr : c.running = true := by simpa using hr
      have hs : c.stopping ≠ .done := by
        intro hd
        rw [h.halted hd] at hr
        cases hr
      cases event with
      | disconnectSent => exact endLoop_orderly rfl
      | lost reason =>
        dsimp only
        split
        · exact endLoop_orderly rfl
        · exact .of_running hr hs
      | _ => exact .of_running hr hs
  | disconnect =>
    rw [step, beginDisconnect]
    split
    · refine ⟨?_, h.quiet⟩
      intro hd
      cases hd
    · exact h
  | stopped =>
    rw [step, endDisconnect]
    split
    · exact ⟨fun _ => rfl, fun _ => ⟨rfl, waiting_failAll c.tracker .disconnected, rfl⟩⟩
    · exact h

theorem run_orderly (steps : List Step) : Orderly (run steps).1 := by
  induction steps using List.reverseRecOn with
  | nil => exact .of_running rfl (by simp [run, start])
  | append_singleton steps s ih =>
    rw [run_snoc]
    exact step_orderly ih s

/-- A client whose disconnect has returned stays as it is. -/
theorem Orderly.step_eq_self (h : Orderly c) (hd : c.stopping = .done) (s : Step) :
    c.step s = c := by
  cases s with
  | publish qos room => simp [step, publish, hd]
  | poll event => simp [step, poll, h.halted hd]
  | disconnect => simp [step, beginDisconnect, hd]
  | stopped => simp [step, endDisconnect, hd]

/-- The last event that decides it says that there is a connection. -/
def Linked (heard : List LoopEvent) : Prop :=
  (heard.filterMap LoopEvent.link?).getLast? = some true

theorem step_connected (hs : (c.step s).stopping ≠ .done) :
    (c.step s).connected =
      ((c.polled s).filterMap LoopEvent.link?).getLast?.getD c.connected := by
  cases s with
  | publish qos room =>
    simp only [step, publish, polled]
    split
    · rfl
    · split
      · rfl
      · split <;> rfl
  | poll event =>
    simp only [step, poll, polled]
    cases c.running with
    | false => rfl
    | true =>
      cases event with
      | lost reason =>
        simp only [Bool.not_true, Bool.false_eq_true, ↓reduceIte]
        split <;> rfl
      | _ => rfl
  | disconnect =>
    simp only [step, beginDisconnect, polled]
    split <;> rfl
  | stopped =>
    rw [step_stopping] at hs
    have hasked : c.stopping ≠ .asked := by
      intro ha
      simp [ha] at hs
    simp [step, endDisconnect, hasked, polled]

/-- Until the first disconnect returns, a client is connected as its loop last said. -/
theorem run_connected (steps : List Step) (h : (run steps).1.stopping ≠ .done) :
    (run steps).1.connected = true ↔ Linked (run steps).2 := by
  induction steps using List.reverseRecOn with
  | nil => simp [run, start, Linked]
  | append_singleton steps s ih =>
    rw [run_snoc] at h ⊢
    have hbefore : (run steps).1.stopping ≠ .done := by
      intro hd
      rw [(run_orderly steps).step_eq_self hd] at h
      exact h hd
    have ih := ih hbefore
    rw [Linked] at ih ⊢
    rw [step_connected h, List.filterMap_append, List.getLast?_append]
    cases ((run steps).1.polled s |>.filterMap LoopEvent.link?).getLast? with
    | none => simpa using ih
    | some linked => simp

/-- Every request that was taken has ended once the first disconnect has returned. -/
theorem returned_concluded (hr : Returned steps) (hk : k < (run steps).1.tracker.issued) :
    ∃ outcome, (run steps).1.outcome? k = some outcome ∧
      (outcome.result = .ok () ∨ outcome.result = .error .disconnected ∨
        ∃ reason, outcome.result = .error (.connectionLost reason) ∧
          .lost reason ∈ (run steps).2) := by
  have horder := run_orderly steps
  obtain ⟨-, hwaiting, hflying⟩ :=
    horder.quiet (horder.halted ((run_stopping steps).2.mpr hr))
  cases ho : (run steps).1.outcome? k with
  | none =>
    have hp := (run_accounted steps).unfinished_iff.mp ⟨hk, ho⟩
    simp [hwaiting, hflying] at hp
  | some outcome =>
    refine ⟨outcome, rfl, ?_⟩
    cases outcome with
    | done => exact .inl rfl
    | dropped => exact .inr (.inl rfl)
    | failed e =>
      rcases run_reasons steps (mem_of_outcome? ho) with rfl | ⟨reason, rfl, hl⟩
      · exact .inr (.inl rfl)
      · exact .inr (.inr ⟨reason, rfl, hl⟩)

theorem accounted_step (steps : List Step) (s : Step) : Accounted ((run steps).1.step s) := by
  have h := run_accounted (steps ++ [s])
  rw [run_snoc] at h
  exact h

theorem publish_disconnecting (hm : .disconnect ∈ steps) (qos : Qos) (room : Bool) :
    (run steps).1.publish qos room = ((run steps).1, .error .disconnected) := by
  have hs : (run steps).1.stopping ≠ .no := fun hn => (run_stopping steps).1.mp hn hm
  rw [publish, if_pos hs]

/-- Before anybody disconnects, a client publishes while its loop last spoke of a connection. -/
theorem publish_undisturbed (hm : .disconnect ∉ steps) (qos : Qos) :
    (Linked (run steps).2 →
      (run steps).1.publish qos true =
        ({ (run steps).1 with tracker := (run steps).1.tracker.track qos },
          .ok (run steps).1.tracker.issued) ∧
      (run steps).1.publish qos false = ((run steps).1, .error .refused)) ∧
    (¬ Linked (run steps).2 → ∀ room,
      (run steps).1.publish qos room = ((run steps).1, .error .notConnected)) := by
  have hs : (run steps).1.stopping = .no := (run_stopping steps).1.mpr hm
  have hlink : (run steps).1.connected = true ↔ Linked (run steps).2 := by
    apply run_connected
    rw [hs]
    nofun
  constructor
  · intro hl
    simp [publish, hs, hlink.mpr hl]
  · intro hl room
    have hc : (run steps).1.connected = false := by
      rw [← Bool.not_eq_true, hlink]
      exact hl
    simp [publish, hs, hc]

/-- Publications are concluded. After any steps: once the first disconnect has returned, the client
is not connected, nothing changes any more, and each request that was taken has ended, well or by a
disconnect or with a connection error that the loop reported. A step that fails requests fails all
that are unfinished, any other step may only finish some, and no outcome is changed later. Once
somebody disconnects, nothing more is taken; before, a request is taken just when the loop last
spoke of a connection and there is room for it. -/
theorem publications_concluded (steps : List Step) :
    let c := (run steps).1
    (Returned steps → c.connected = false ∧ (∀ s, c.step s = c) ∧
      ∀ k < c.tracker.issued, ∃ outcome, c.outcome? k = some outcome ∧
        (outcome.result = .ok () ∨ outcome.result = .error .disconnected ∨
          ∃ reason, outcome.result = .error (.connectionLost reason) ∧
            .lost reason ∈ (run steps).2)) ∧
    (∀ s k, c.Unfinished k →
      (∀ e, c.failing? s = some e → (c.step s).outcome? k = some (.failed e)) ∧
      (c.failing? s = none → ∀ outcome, (c.step s).outcome? k = some outcome →
        outcome = .done ∨ outcome = .dropped)) ∧
    (∀ s k outcome, c.outcome? k = some outcome → (c.step s).outcome? k = some outcome) ∧
    (.disconnect ∈ steps → ∀ qos room, c.publish qos room = (c, .error .disconnected)) ∧
    (.disconnect ∉ steps → ∀ qos,
      (Linked (run steps).2 →
        c.publish qos true = ({ c with tracker := c.tracker.track qos }, .ok c.tracker.issued) ∧
        c.publish qos false = (c, .error .refused)) ∧
      (¬ Linked (run steps).2 → ∀ room, c.publish qos room = (c, .error .notConnected))) := by
  intro c
  have hall : Accounted c := run_accounted steps
  refine ⟨?_, ?_, ?_, publish_disconnecting, publish_undisturbed⟩
  · intro hr
    have hd : c.stopping = .done := (run_stopping steps).2.mpr hr
    have horder : Orderly c := run_orderly steps
    obtain ⟨hconn, -, -⟩ := horder.quiet (horder.halted hd)
    exact ⟨hconn, horder.step_eq_self hd, fun k hk => returned_concluded hr hk⟩
  · intro s k hk
    constructor
    · intro e he
      exact (accounted_step steps s).outcome?_eq_some.mpr (failed_of_failing hall he hk)
    · intro hs outcome ho
      exact ends_of_not_failing hall hs hk (mem_of_outcome? ho)
  · intro s k outcome ho
    exact (accounted_step steps s).outcome?_eq_some.mpr
      (step_completions c s (mem_of_outcome? ho))

end Client

end Uplink.Broker
