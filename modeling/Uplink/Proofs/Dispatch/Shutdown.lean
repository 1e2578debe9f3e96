import Uplink.Proofs.Dispatch.Outcomes

namespace Uplink.Dispatch

open Backend Broker Notification Registry Time

variable {d : Dispatcher} {k : Nat} {n : Encoded} {s : Step} {x y : Outcome} {o : List Output}
  {result : Resolved} {outs : List Registry.Output} {steps : List Step}
  {broker : BrokerBackend} {ttl : Option Duration}

/-- Leaves for the publisher or for a webhook. -/
def Output.goesOut : Output → Bool
  | .published _ _ | .requested _ _ _ => true
  | _ => false

/-- Has to do with a close: the publisher is asked to disconnect, or a close is over. -/
def Output.ofClose : Output → Bool
  | .disconnected | .closed _ _ => true
  | _ => false

/-- Work that leaves the dispatcher as open as it was, and says nothing of closes. -/
structure Unclosing (d : Dispatcher) (x : Outcome) : Prop where
  closed : x.1.closed = d.closed
  closing : x.1.closing = d.closing
  silent : ∀ o ∈ x.2, o.ofClose = false

theorem Unclosing.idle : Unclosing d (d, []) := ⟨rfl, rfl, List.forall_mem_nil _⟩

theorem Unclosing.say (h : Unclosing d x) (ho : ∀ y ∈ o, y.ofClose = false) :
    Unclosing d (x.1, o ++ x.2) :=
  ⟨h.closed, h.closing, List.forall_mem_append.mpr ⟨ho, h.silent⟩⟩

theorem Unclosing.trans (h : Unclosing d x) (h' : Unclosing x.1 y) :
    Unclosing d (y.1, x.2 ++ y.2) :=
  ⟨h'.closed.trans h.closed, h'.closing.trans h.closing,
    List.forall_mem_append.mpr ⟨h.silent, h'.silent⟩⟩

/-- Going on with a send says no more than that it ends. -/
theorem proceed_says (d : Dispatcher) (s : Send) :
    ∀ o ∈ (proceed d s).2, ∃ result, o = .sent s.number result := by
  cases hc : concluded? s.phase with
  | some result =>
    rw [(proceed_of_some hc).2.2.2]
    simp
  | none =>
    rw [proceed_of_none hc]
    simp

theorem proceed_unclosing (d : Dispatcher) (s : Send) : Unclosing d (proceed d s) := by
  have silent : ∀ o ∈ (proceed d s).2, o.ofClose = false := by
    intro o ho
    obtain ⟨result, rfl⟩ := proceed_says d s o ho
    rfl
  refine ⟨?_, ?_, silent⟩
  all_goals
    unfold proceed
    split
    · split
      · unfold finish
        dsimp only
        split <;> rfl
      · rfl
    · rfl

theorem ended_silent (k : Nat) (t : Target) (event : Event) (x : Delivery) :
    ∀ o ∈ ended k t event x, o.ofClose = false := by
  simp [ended, Output.ofClose]

theorem launch_silent (d : Dispatcher) (k : Nat) (n : Encoded) (t : Target) :
    ∀ o ∈ (launch d k n t).2, o.ofClose = false := by
  cases t with
  | broker =>
    simp only [launch, beginBroker]
    split <;> simp [ended, Output.ofClose]
  | hook h =>
    simp only [launch, beginHook]
    split <;> simp [ended, Output.ofClose]

theorem deliver_unclosing (d : Dispatcher) (s : Send) (known : List BackendFailure)
    (hooks : List Hook) : Unclosing d (deliver d s known hooks) := by
  rw [deliver_eq]
  refine (proceed_unclosing d _).say fun o ho => ?_
  obtain ⟨t, -, ht⟩ := List.mem_flatMap.mp ho
  exact launch_silent d _ _ t o ht

theorem onResolved_unclosing (d : Dispatcher) (s : Send) (result : Resolved) :
    Unclosing d (onResolved d s result) := by
  match result with
  | .ok e => exact deliver_unclosing d s _ _
  | .error (.storage x) =>
    have h := deliver_unclosing { d with stats :=
      { d.stats with storageFailures := d.stats.storageFailures + 1 } } s [ofStorage x] []
    exact ⟨h.closed, h.closing, h.silent⟩
  | .error .closed => exact ⟨rfl, rfl, by simp [onResolved, Output.ofClose]⟩

theorem onOutput_unclosing (d : Dispatcher) (out : Registry.Output) :
    Unclosing d (onOutput d out) := by
  cases out with
  | returned j result =>
    simp only [onOutput]
    split
    · refine (onResolved_unclosing d _ result).say (o := [.resolved j result]) ?_
      simp [Output.ofClose]
    · exact ⟨rfl, rfl, by simp [Output.ofClose]⟩
  | _ => exact ⟨rfl, rfl, by simp [onOutput, Output.ofClose]⟩

theorem follow_unclosing (d : Dispatcher) (outs : List Registry.Output) :
    Unclosing d (follow d outs) :=
  collect_keeps (f := onOutput) (P := fun d' o => Unclosing d (d', o)) (o := [])
    (fun _ _ out h => h.trans (onOutput_unclosing _ out)) .idle outs

theorem registryStep_unclosing (d : Dispatcher) (t : Registry.Step) :
    Unclosing d (registryStep d t) :=
  let h := follow_unclosing { d with registry := (Registry.step d.registry t).1 }
    (Registry.step d.registry t).2
  ⟨h.closed, h.closing, h.silent⟩

theorem begin_unclosing (d : Dispatcher) (k : Nat) (n : Encoded) :
    Unclosing d (begin d k n) := by
  unfold begin
  split
  · exact ⟨rfl, rfl, by simp [Output.ofClose]⟩
  · have h := registryStep_unclosing { d with
      stats := { d.stats with totalSent := d.stats.totalSent + 1 }
      sends := d.sends ++ [⟨k, n, .resolving⟩] } (.begin k n.applicationId)
    exact ⟨h.closed, h.closing, List.forall_mem_cons.mpr ⟨rfl, h.silent⟩⟩

theorem Answered.unclosing {x : Outcome} (h : Answered k d x) : Unclosing d x := by
  cases h with
  | dropped => exact .idle
  | taken => exact (proceed_unclosing d _).say (ended_silent _ _ _ _)

/-- The dispatcher is closed, and so are its registry and its broker. -/
structure Down (d : Dispatcher) : Prop where
  closed : d.closed = true
  registry : d.registry.closed = true
  broker : d.broker.closed = true

theorem step_closed (h : d.closed = true) (s : Step) : (step d s).1.closed = true := by
  cases s with
  | begin j m => exact (begin_unclosing d j m).closed.trans h
  | registry t => exact (registryStep_unclosing d t).closed.trans h
  | brokerAnswer j a => exact (brokerAnswer_answered d j a).unclosing.closed.trans h
  | hookAnswer j hook r => exact (hookAnswer_answered d j hook r).unclosing.closed.trans h
  | beginClose c =>
    simp only [step, beginClose, h, ↓reduceIte]
  | closeAnswer a =>
    simp only [step, closeAnswer]
    split <;> exact h

theorem Down.step (h : Down d) (s : Step) : Down (step d s).1 where
  closed := step_closed h.closed s
  registry := by
    cases hi : s.inner? d with
    | none => rw [(step_of_inner_none hi).1, h.registry]
    | some t => rw [(step_of_inner_some hi).1, Registry.step_closed h.registry]
  broker := by
    rcases step_broker d s with hb | ⟨_, hb⟩
    · rw [hb, h.broker]
    · rw [hb]

theorem Down.run (h : Down d) (steps : List Step) : Down (run d steps).1 :=
  collect_keeps (f := Dispatch.step) (P := fun d _ => Down d) (o := []) (fun _ _ s h => h.step s)
    h steps

/-- With the first close everything is closed. -/
theorem beginClose_down (h : d.closed = false) (c : Nat) : Down (beginClose d c).1 := by
  have hs := registryStep_unclosing { d with closed := true } .close
  have hr : (registryStep { d with closed := true } .close).1.registry.closed = true := by
    rw [(registryStep_heard _ _).1]
    exact congrArg Books.closed (close_books d.registry)
  simp only [beginClose, h, Bool.false_eq_true, ↓reduceIte]
  split
  · rename_i hb
    exact ⟨hs.closed, hr, hb⟩
  · exact ⟨hs.closed, hr, rfl⟩

theorem launch_still (h : d.broker.closed = true) (k : Nat) (n : Encoded) :
    ∀ o ∈ (launch d k n .broker).2, o.goesOut = false := by
  simp [launch, beginBroker, h, ended, Output.goesOut]

theorem proceed_still (d : Dispatcher) (s : Send) : ∀ o ∈ (proceed d s).2, o.goesOut = false := by
  intro o ho
  obtain ⟨result, rfl⟩ := proceed_says d s o ho
  rfl

theorem ended_still (k : Nat) (t : Target) (event : Event) (x : Delivery) :
    ∀ o ∈ ended k t event x, o.goesOut = false := by
  simp [ended, Output.goesOut]

/-- A send that has no entry to go on with is delivered to the broker at most, and that is
closed. -/
theorem onResolved_still (hb : d.broker.closed = true) (s : Send) (hr : ∀ e, result ≠ .ok e) :
    ∀ o ∈ (onResolved d s result).2, o.goesOut = false := by
  match result with
  | .ok e => exact absurd rfl (hr e)
  | .error (.storage x) =>
    simp only [onResolved, deliver_eq, launches, targets, List.map_nil, List.flatMap_singleton]
    exact List.forall_mem_append.mpr ⟨launch_still hb _ _, proceed_still _ _⟩
  | .error .closed => simp [onResolved, Output.goesOut]

theorem follow_still (hb : d.broker.closed = true) (h : ∀ k e, .returned k (.ok e) ∉ outs) :
    ∀ o ∈ (follow d outs).2, o.goesOut = false := by
  induction outs generalizing d with
  | nil => exact List.forall_mem_nil _
  | cons out outs ih =>
    have hfirst : ∀ o ∈ (onOutput d out).2, o.goesOut = false := by
      cases out with
      | returned j result =>
        have hr : ∀ e, result ≠ .ok e := fun e he => h j e (he ▸ List.mem_cons_self)
        simp only [onOutput]
        split
        · exact List.forall_mem_cons.mpr ⟨rfl, onResolved_still hb _ hr⟩
        · simp [Output.goesOut]
      | _ => simp [onOutput, Output.goesOut]
    have hbroker : (onOutput d out).1.broker.closed = true :=
      (congrArg BrokerBackend.closed (follow_broker d [out])).trans hb
    rw [follow_cons]
    exact List.forall_mem_append.mpr
      ⟨hfirst, ih hbroker fun j e hm => h j e (List.mem_cons_of_mem _ hm)⟩

theorem Answered.still {x : Outcome} (h : Answered k d x) : ∀ o ∈ x.2, o.goesOut = false := by
  cases h with
  | dropped => exact List.forall_mem_nil _
  | taken => exact List.forall_mem_append.mpr ⟨ended_still _ _ _ _, proceed_still _ _⟩

/-- Where everything is closed, nothing goes out, be it that a lookup ends, or a delivery. -/
theorem step_still (h : Down d) (s : Step) : ∀ o ∈ (step d s).2, o.goesOut = false := by
  cases s with
  | begin j m => simp [step, begin, h.closed, Output.goesOut]
  | registry t => exact follow_still h.broker fun j e => Registry.step_refused h.registry t
  | brokerAnswer j a => exact (brokerAnswer_answered d j a).still
  | hookAnswer j hook r => exact (hookAnswer_answered d j hook r).still
  | beginClose c => simp [step, beginClose, h.closed, Output.goesOut]
  | closeAnswer a =>
    simp only [step, closeAnswer]
    split <;> simp [Output.goesOut]

theorem run_still (h : Down d) (steps : List Step) :
    ∀ o ∈ (run d steps).2, o.goesOut = false := by
  intro o ho
  obtain ⟨before, s, after, -, hs⟩ := mem_run ho
  exact step_still (h.run before) s o hs

/-- No call returns with the closing of the registry. -/
theorem close_unreturned (r : Registry) (k : Nat) (result : Resolved) :
    .returned k result ∉ (Registry.step r .close).2 := by
  simp only [Registry.step, Registry.close]
  split <;> simp

/-- The step of a close lets nothing out either: it only closes what is cached. -/
theorem beginClose_still (d : Dispatcher) (c : Nat) :
    ∀ o ∈ (beginClose d c).2, o.goesOut = false := by
  have hstill : ∀ o ∈ (registryStep { d with closed := true } .close).2, o.goesOut = false := by
    rw [registryStep_unwaited fun k result hm => absurd hm (close_unreturned _ k result)]
    intro o ho
    obtain ⟨out, -, rfl⟩ := List.mem_map.mp ho
    cases out <;> rfl
  unfold beginClose
  split
  · simp [Output.goesOut]
  · dsimp only
    split
    · exact List.forall_mem_append.mpr ⟨hstill, by simp [Output.goesOut]⟩
    · exact List.forall_mem_append.mpr ⟨hstill, by simp [Output.goesOut]⟩

/-- The numbers of the closes that begin, in order. -/
def closes (steps : List Step) : List Nat :=
  steps.filterMap fun
    | .beginClose c => some c
    | _ => none

/-- How often the publisher is asked to disconnect. -/
def disconnects (o : List Output) : Nat :=
  o.countP fun
    | .disconnected => true
    | _ => false

/-- The closes that end with an error. -/
def failedCloses (o : List Output) : List Nat :=
  o.filterMap fun
    | .closed c (.error _) => some c
    | _ => none

@[simp] theorem disconnects_append (o o' : List Output) :
    disconnects (o ++ o') = disconnects o + disconnects o' :=
  List.countP_append

@[simp] theorem failedCloses_append (o o' : List Output) :
    failedCloses (o ++ o') = failedCloses o ++ failedCloses o' :=
  List.filterMap_append

@[simp] theorem disconnects_disconnected : disconnects [.disconnected] = 1 := rfl

@[simp] theorem disconnects_closed (c : Nat) (result : Sent) :
    disconnects [.closed c result] = 0 :=
  rfl

@[simp] theorem failedCloses_disconnected : failedCloses [.disconnected] = [] := rfl

@[simp] theorem failedCloses_closed_ok (c : Nat) : failedCloses [.closed c (.ok ())] = [] := rfl

@[simp] theorem failedCloses_closed_error (c : Nat) (x : DispatchError) :
    failedCloses [.closed c (.error x)] = [c] :=
  rfl

theorem disconnects_of_silent (h : ∀ x ∈ o, x.ofClose = false) : disconnects o = 0 := by
  refine List.countP_eq_zero.mpr fun x hx => ?_
  cases x with
  | disconnected => cases h _ hx
  | _ => exact Bool.false_ne_true

theorem failedCloses_of_silent (h : ∀ x ∈ o, x.ofClose = false) : failedCloses o = [] := by
  refine List.filterMap_eq_nil_iff.mpr fun x hx => ?_
  cases x with
  | closed c result => cases h _ hx
  | _ => rfl

/-- What is known of the closes of a run: with the first of them everything is closed, the publisher
is asked to disconnect once at most, and no other close fails, or waits. -/
structure Tidy (steps : List Step) (d : Dispatcher) (o : List Output) : Prop where
  opened : closes steps = [] → d.closed = false ∧ disconnects o = 0
  down : closes steps ≠ [] → Down d
  once : disconnects o ≤ 1
  failed : (failedCloses o ++ d.closing.toList).Sublist ((closes steps).take 1)

theorem Tidy.unclosing (h : Tidy steps d o) (hx : Unclosing d x) (hs : closes [s] = [])
    (hd : Down d → Down x.1) : Tidy (steps ++ [s]) x.1 (o ++ x.2) := by
  have hsame : closes (steps ++ [s]) = closes steps := by
    rw [closes, List.filterMap_append]
    exact (congrArg _ hs).trans (List.append_nil _)
  have hcount : disconnects (o ++ x.2) = disconnects o := by
    rw [disconnects_append, disconnects_of_silent hx.silent, Nat.add_zero]
  have hfailed : failedCloses (o ++ x.2) = failedCloses o := by
    rw [failedCloses_append, failedCloses_of_silent hx.silent, List.append_nil]
  refine ⟨fun hn => ?_, fun hn => ?_, ?_, ?_⟩
  · rw [hsame] at hn
    rw [hx.closed, hcount]
    exact h.opened hn
  · rw [hsame] at hn
    exact hd (h.down hn)
  · rw [hcount]
    exact h.once
  · rw [hfailed, hx.closing, hsame]
    exact h.failed

theorem Tidy.beginClose (h : Tidy steps d o) (c : Nat) :
    Tidy (steps ++ [.beginClose c]) (beginClose d c).1 (o ++ (beginClose d c).2) := by
  have hcloses : closes (steps ++ [.beginClose c]) = closes steps ++ [c] := List.filterMap_append
  by_cases hn : closes steps = []
  · obtain ⟨hopen, hnone⟩ := h.opened hn
    have hdown := beginClose_down hopen c
    have hnotyet : failedCloses o = [] ∧ d.closing.toList = [] := by
      have := h.failed
      rw [hn, List.take_nil, List.sublist_nil] at this
      exact List.append_eq_nil_iff.mp this
    have hclosing : d.closing = none := Option.toList_eq_nil_iff.mp hnotyet.2
    have hs := registryStep_unclosing { d with closed := true } .close
    have hcount := disconnects_of_silent hs.silent
    have hfailed := failedCloses_of_silent hs.silent
    have hkept := hs.closing.trans hclosing
    refine ⟨fun hx => ?_, fun _ => hdown, ?_, ?_⟩
    · rw [hcloses, hn] at hx
      cases hx
    all_goals
      simp only [Dispatch.beginClose, hopen, Bool.false_eq_true, ↓reduceIte]
      split
    · simp [hnone, hcount]
    · simp [hnone, hcount]
    · simp [hnotyet.1, hfailed, hkept]
    · simp [hnotyet.1, hfailed, hcloses, hn]
  · have hdown := h.down hn
    have hfirst : (closes (steps ++ [.beginClose c])).take 1 = (closes steps).take 1 := by
      rw [hcloses, List.take_append_of_le_length (List.length_pos_iff.mpr hn)]
    have hx : Dispatch.beginClose d c = (d, [.closed c (.ok ())]) := by
      simp only [Dispatch.beginClose, hdown.closed, ↓reduceIte]
    rw [hx]
    refine ⟨fun hx => ?_, fun _ => hdown, ?_, ?_⟩
    · rw [hcloses] at hx
      simp at hx
    · simpa using h.once
    · rw [hfirst]
      simpa using h.failed

theorem Tidy.closeAnswer (h : Tidy steps d o) (a : Answer) :
    Tidy (steps ++ [.closeAnswer a]) (closeAnswer d a).1 (o ++ (closeAnswer d a).2) := by
  have hsame : closes (steps ++ [.closeAnswer a]) = closes steps := by
    rw [closes, List.filterMap_append]
    exact List.append_nil _
  have hfailed := h.failed
  unfold Dispatch.closeAnswer
  cases hc : d.closing with
  | none =>
    dsimp only
    rw [List.append_nil]
    exact ⟨hsame ▸ h.opened, hsame ▸ h.down, h.once, hsame ▸ hfailed⟩
  | some c =>
    rw [hc] at hfailed
    dsimp only
    refine ⟨fun hn => ?_, fun hn => ?_, ?_, ?_⟩
    · rw [hsame] at hn
      simpa using h.opened hn
    · rw [hsame] at hn
      obtain ⟨hd, hr, hb⟩ := h.down hn
      exact ⟨hd, hr, hb⟩
    · simpa using h.once
    · rw [hsame]
      refine List.Sublist.trans ?_ hfailed
      simp only [failedCloses_append, Option.toList_none, List.append_nil, Option.toList_some]
      refine (List.Sublist.refl _).append ?_
      cases ofDelivery BrokerBackend.name (d.broker.settleClose a) with
      | none => exact List.nil_sublist _
      | some f => exact List.Sublist.refl _

theorem Tidy.step (h : Tidy steps d o) (s : Step) :
    Tidy (steps ++ [s]) (step d s).1 (o ++ (step d s).2) := by
  have hd : Down d → Down (Dispatch.step d s).1 := fun hd => hd.step s
  cases s with
  | begin j m => exact h.unclosing (begin_unclosing d j m) rfl hd
  | registry t => exact h.unclosing (registryStep_unclosing d t) rfl hd
  | brokerAnswer j a => exact h.unclosing (brokerAnswer_answered d j a).unclosing rfl hd
  | hookAnswer j hook r => exact h.unclosing (hookAnswer_answered d j hook r).unclosing rfl hd
  | beginClose c => exact h.beginClose c
  | closeAnswer a => exact h.closeAnswer a

theorem run_tidy (broker : BrokerBackend) (ttl : Option Duration) (steps : List Step) :
    Tidy steps (run (fresh broker ttl) steps).1 (run (fresh broker ttl) steps).2 := by
  induction steps using List.reverseRecOn with
  | nil => exact ⟨fun _ => ⟨rfl, rfl⟩, fun h => absurd rfl h, Nat.zero_le 1, List.nil_sublist _⟩
  | append_singleton steps s ih =>
    rw [run_snoc]
    exact ih.step s

/-- Where a close has begun, everything is closed. -/
theorem run_down {c : Nat} (broker : BrokerBackend) (ttl : Option Duration)
    (h : .beginClose c ∈ steps) : Down (run (fresh broker ttl) steps).1 := by
  refine (run_tidy broker ttl steps).down (List.ne_nil_of_mem (a := c) ?_)
  exact List.mem_filterMap.mpr ⟨.beginClose c, h, rfl⟩

/-- Nothing is delivered after a close, whatever was in flight when it began. A send that begins
later is refused at once and changes nothing, and of all closes of a run only the first can have the
publisher disconnect, once, or fail. -/
theorem nothing_after_close (broker : BrokerBackend) (ttl : Option Duration) (before : List Step)
    (close : Nat) (after : List Step) :
    let steps := before ++ .beginClose close :: after
    let whole := run (fresh broker ttl) steps
    let later := run (run (fresh broker ttl) before).1 (.beginClose close :: after)
    (∀ send m, .published send m ∉ later.2) ∧
      (∀ send hook r, .requested send hook r ∉ later.2) ∧
      (∀ send n, step later.1 (.begin send n) = (later.1, [.sent send (.error .closed)])) ∧
      (∀ c, step later.1 (.beginClose c) = (later.1, [.closed c (.ok ())])) ∧
      disconnects whole.2 ≤ 1 ∧
      (failedCloses whole.2).Sublist ((closes steps).take 1) := by
  intro steps whole later
  have hdown : Down (beginClose (run (fresh broker ttl) before).1 close).1 := by
    have hc : .beginClose close ∈ before ++ [.beginClose close] := by simp
    have h := run_down broker ttl hc
    rwa [run_snoc] at h
  have hstill : ∀ o ∈ later.2, o.goesOut = false := by
    simp only [later, run_cons]
    exact List.forall_mem_append.mpr ⟨beginClose_still _ close, run_still hdown after⟩
  have hclosed : later.1.closed = true := by
    simp only [later, run_cons]
    exact (hdown.run after).closed
  have htidy := run_tidy broker ttl steps
  refine ⟨fun send m hm => ?_, fun send hook r hm => ?_, fun send n => ?_, fun c => ?_, htidy.once,
    (List.sublist_append_left _ _).trans htidy.failed⟩
  · cases hstill _ hm
  · cases hstill _ hm
  · simp only [step, begin, hclosed, ↓reduceIte]
  · simp only [step, beginClose, hclosed, ↓reduceIte]

end Uplink.Dispatch
