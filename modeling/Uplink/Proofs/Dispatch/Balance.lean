import Mathlib.Algebra.GroupWithZero.Nat
import Uplink.Proofs.Dispatch.Presence

namespace Uplink.Dispatch

open Backend Broker Notification Registry Time

variable {d : Dispatcher} {k : Nat} {n : Encoded} {o o' : List Output} {s t : Send} {x y : Outcome}
  {outs : List Registry.Output} {own : List Nat} {steps : List Step} {ttl : Option Duration}
  {broker : BrokerBackend}

/-- What sends in flight weigh together. -/
def weigh (f : Phase → Nat) (d : Dispatcher) : Nat := (d.sends.map fun s => f s.phase).sum

theorem weigh_setSend (f : Phase → Nat) (hn : Apart d) (ht : d.send? s.number = some t) :
    weigh f (d.setSend s) + f t.phase = weigh f d + f s.phase := by
  obtain ⟨pre, post, hsplit, hsends⟩ := setSend_split hn ht
  simp only [weigh, hsends, hsplit, List.map_append, List.map_cons, List.sum_append, List.sum_cons]
  omega

theorem weigh_dropSend (f : Phase → Nat) (hn : Apart d) (ht : d.send? k = some t) :
    weigh f (d.dropSend k) + f t.phase = weigh f d := by
  obtain ⟨pre, post, hsplit, hsends⟩ := dropSend_split hn ht
  simp only [weigh, hsends, hsplit, List.map_append, List.map_cons, List.sum_append, List.sum_cons]
  omega

/-- How far a delivery has come. -/
inductive Stage where
  | begun
  | ended
  | failed

/-- Whether a delivery with this outcome, if it has one yet, has come so far. -/
def Stage.weight : Stage → Option Delivery → Nat
  | .begun, _ => 1
  | .ended, x => if x.isSome then 1 else 0
  | .failed, x => if x.any Dispatch.failed then 1 else 0

/-- Whether the beginning of a delivery brings it so far. -/
def Stage.atBegin : Stage → Bool
  | .begun => true
  | _ => false

/-- Whether the end of a delivery brings it so far. -/
def Stage.atEnd : Stage → Delivery → Bool
  | .begun, _ => false
  | .ended, _ => true
  | .failed, x => Dispatch.failed x

/-- What there are statistics of: deliveries, ends of sends, their beginnings and lookups. The last
meter is for the sends that are let in, all of which are to be delivered. -/
inductive Meter where
  | broker (stage : Stage)
  | hooks (stage : Stage)
  | successes
  | failures
  | notified
  | unresolved
  | admitted

def Target.isHook : Target → Bool
  | .broker => false
  | .hook _ => true

/-- Whether a meter is for deliveries of this kind, at this stage. -/
def Meter.reads (m : Meter) (hook : Bool) : Option Stage :=
  match m with
  | .broker stage => if hook then none else some stage
  | .hooks stage => if hook then some stage else none
  | _ => none

def succeeded : Sent → Bool
  | .ok _ => true
  | .error _ => false

def undelivered : Sent → Bool
  | .error (.delivery _) => true
  | _ => false

def lookupFailed : Resolved → Bool
  | .error (.storage _) => true
  | _ => false

def lookupRefused : Resolved → Bool
  | .error .closed => true
  | _ => false

def Count.isNotification : Count → Bool
  | .notification _ => true
  | _ => false

/-- Whether an output is one of those that are counted. Lookups count that were made for sends,
whose numbers are given. -/
def Meter.sees (m : Meter) (own : List Nat) : Output → Bool
  | .attempted _ t _ => (m.reads t.isHook).any Stage.atBegin
  | .delivered _ t x => (m.reads t.isHook).any (·.atEnd x)
  | .sent _ result =>
    match m with
    | .successes => succeeded result
    | .failures => undelivered result
    | _ => false
  | .counted c =>
    match m with
    | .notified | .admitted => c.isNotification
    | _ => false
  | .resolved k result =>
    match m with
    | .unresolved => lookupFailed result && own.contains k
    | _ => false
  | _ => false

/-- What is counted for nothing: the sends that are refused after they were let in. -/
def Meter.waives (m : Meter) (own : List Nat) : Output → Bool
  | .resolved k result =>
    match m with
    | .admitted => lookupRefused result && own.contains k
    | _ => false
  | _ => false

/-- The statistic. -/
def Meter.paid (m : Meter) (s : Stats) : Nat :=
  match m with
  | .broker .failed => s.brokerFailures
  | .broker _ => s.totalDelivered + s.totalFailed
  | .hooks .failed => s.integrationFailures
  | .hooks _ => s.integrationDeliveries
  | .successes => s.totalDelivered
  | .failures => s.totalFailed
  | .notified => s.totalSent
  | .unresolved => s.storageFailures
  | .admitted => s.totalDelivered + s.totalFailed

/-- What a send in flight has still to add to the statistic. -/
def Meter.owed (m : Meter) : Phase → Nat
  | .resolving => match m with
    | .admitted => 1
    | _ => 0
  | .delivering _ outcome attempts _ =>
    match m with
    | .broker stage => stage.weight outcome
    | .hooks stage => (attempts.map fun a => stage.weight a.outcome).sum
    | .admitted => 1
    | _ => 0

/-- The statistic with all that is owed to it. -/
def Meter.due (m : Meter) (d : Dispatcher) : Nat := m.paid d.stats + weigh m.owed d

def Meter.count (m : Meter) (own : List Nat) (o : List Output) : Nat := o.countP (m.sees own)

def Meter.waived (m : Meter) (own : List Nat) (o : List Output) : Nat := o.countP (m.waives own)

@[simp] theorem Meter.waived_append (m : Meter) (own : List Nat) (o o' : List Output) :
    m.waived own (o ++ o') = m.waived own o + m.waived own o' :=
  List.countP_append

/-- Only the return of a call can be counted for nothing. -/
theorem Meter.waived_unheard (h : heard o = []) (m : Meter) (own : List Nat) :
    m.waived own o = 0 := by
  refine List.countP_eq_zero.mpr fun x hx => ?_
  cases x with
  | resolved k result =>
    rw [← mem_heard_resolved, h] at hx
    cases hx
  | _ => exact Bool.false_ne_true

@[simp] theorem Meter.count_append (m : Meter) (own : List Nat) (o o' : List Output) :
    m.count own (o ++ o') = m.count own o + m.count own o' :=
  List.countP_append

theorem Meter.count_cons (m : Meter) (own : List Nat) (a : Output) (o : List Output) :
    m.count own (a :: o) = m.count own [a] + m.count own o :=
  m.count_append own [a] o

/-- The statistics, with all that is owed to them and what is waived, grow by what comes out. -/
def Balanced (own : List Nat) (d : Dispatcher) (x : Outcome) : Prop :=
  ∀ m : Meter, m.due x.1 + m.waived own x.2 = m.due d + m.count own x.2

theorem Balanced.idle (own : List Nat) (d : Dispatcher) : Balanced own d (d, []) := fun _ => rfl

theorem Balanced.trans (h : Balanced own d x) (h' : Balanced own x.1 y) :
    Balanced own d (y.1, x.2 ++ y.2) := by
  intro m
  have hm := h m
  have hm' := h' m
  dsimp only
  rw [Meter.count_append, Meter.waived_append]
  omega

/-- Work in which no call returns waives nothing. -/
theorem Balanced.of_unheard (hh : heard x.2 = [])
    (h : ∀ m : Meter, m.due x.1 = m.due d + m.count own x.2) : Balanced own d x := by
  intro m
  rw [m.waived_unheard hh, Nat.add_zero]
  exact h m

theorem outcomes?_eq_some {hooks : List HookAttempt} {known : List Delivery}
    (h : outcomes? hooks = some known) : hooks.map (·.outcome) = known.map some := by
  induction hooks generalizing known with
  | nil =>
    cases h
    rfl
  | cons a hooks ih =>
    simp only [outcomes?, List.mapM_cons, Option.bind_eq_bind, Option.bind_eq_some_iff,
      Option.pure_def, Option.some.injEq] at h
    obtain ⟨x, hx, rest, hrest, rfl⟩ := h
    rw [List.map_cons, hx, ih hrest, List.map_cons]

/-- What the deliveries to webhooks weigh whose outcomes are all known. -/
theorem weight_known (known : List Delivery) :
    (known.map fun x => Stage.weight .begun (some x)).sum = known.length ∧
      (known.map fun x => Stage.weight .ended (some x)).sum = known.length ∧
      (known.map fun x => Stage.weight .failed (some x)).sum = known.countP Dispatch.failed := by
  refine ⟨by simp [Stage.weight], by simp [Stage.weight], ?_⟩
  induction known with
  | nil => rfl
  | cons x known ih =>
    rw [List.map_cons, List.sum_cons, ih, List.countP_cons, Nat.add_comm]
    rfl

/-- A send that ends pays all that it owes. -/
theorem finish_paid (own : List Nat) (d : Dispatcher) (s : Send) (before : List BackendFailure)
    (b : Delivery) {hooks : List HookAttempt} {known : List Delivery}
    (h : outcomes? hooks = some known) (since : Duration) (m : Meter) :
    m.paid (finish d s before b known).1.stats =
      m.paid d.stats + m.owed (.delivering before (some b) hooks since)
        + m.count own (finish d s before b known).2 := by
  have hsum : ∀ stage : Stage, (hooks.map fun a => stage.weight a.outcome).sum =
      (known.map fun x => stage.weight (some x)).sum := by
    intro stage
    have hc := congrArg (List.map stage.weight) (outcomes?_eq_some h)
    rw [List.map_map, List.map_map] at hc
    exact congrArg List.sum hc
  obtain ⟨hbegun, hended, hfailed⟩ := weight_known known
  have hb : (if Dispatch.failed b = true then 1 else 0) = if b.toBool = true then 0 else 1 := by
    cases b <;> rfl
  unfold finish
  dsimp only [Dispatcher.dropSend]
  split
  all_goals
    cases m with
    | hooks stage =>
      cases stage <;>
        simp [Meter.paid, Meter.owed, Meter.count, Meter.sees, hsum, hbegun, hended, hfailed]
    | broker stage =>
      cases stage <;>
        simp [Meter.paid, Meter.owed, Meter.count, Meter.sees, Stage.weight, hb, Nat.add_assoc,
          Nat.add_comm 1]
    | admitted =>
      simp only [Meter.paid, Meter.owed, Meter.count, Meter.sees, List.countP_singleton,
        Bool.false_eq_true, ↓reduceIte]
      omega
    | _ => simp [Meter.paid, Meter.owed, Meter.count, Meter.sees, succeeded, undelivered]

theorem proceed_balance (own : List Nat) (hn : Apart d) (ht : d.send? s.number = some t)
    (m : Meter) :
    m.due (proceed d s).1 + m.owed t.phase =
      m.due d + m.owed s.phase + m.count own (proceed d s).2 := by
  have stays : m.due (d.setSend s) + m.owed t.phase =
      m.due d + m.owed s.phase + m.count own [] := by
    have hw := weigh_setSend m.owed hn ht
    simp only [Meter.due, Meter.count, List.countP_nil]
    change m.paid d.stats + _ + _ = _
    omega
  unfold proceed
  split
  · rename_i before b hooks since hp
    split
    · rename_i known hk
      have hpaid := finish_paid own d s before b hk since m
      have hw := weigh_dropSend m.owed hn ht
      have hsends : weigh m.owed (finish d s before b known).1 =
          weigh m.owed (d.dropSend s.number) := by
        unfold finish
        dsimp only
        split <;> rfl
      simp only [Meter.due, hp, hpaid, hsends]
      omega
    · exact stays
  · exact stays

/-- A delivery ends as it begins, or something goes out for it. -/
theorem launch_cases (d : Dispatcher) (k : Nat) (n : Encoded) (t : Target) :
    (∃ x, launch d k n t = (some x, .attempted k t n :: ended k t n.event x)) ∨
      ∃ a, launch d k n t = (none, [.attempted k t n, a]) ∧ a.goesOut = true := by
  cases t with
  | broker =>
    simp only [launch, beginBroker]
    split
    · exact .inl ⟨_, rfl⟩
    · exact .inr ⟨_, rfl, rfl⟩
  | hook h =>
    simp only [launch, beginHook]
    split
    · exact .inl ⟨_, rfl⟩
    · exact .inl ⟨_, rfl⟩
    · exact .inr ⟨_, rfl, rfl⟩

/-- What a meter counts of the end of a delivery. -/
theorem count_ended (own : List Nat) (m : Meter) (k : Nat) (t : Target) (event : Event)
    (x : Delivery) :
    m.count own (ended k t event x) =
      (m.reads t.isHook).elim 0 fun stage => if stage.atEnd x then 1 else 0 := by
  have hnot : m.sees own (.counted (.delivery t.name event x.toBool)) = false := by
    cases m <;> rfl
  have hsees : m.sees own (.delivered k t x) = (m.reads t.isHook).any (·.atEnd x) := rfl
  cases hr : m.reads t.isHook <;> simp [Meter.count, ended, List.countP_cons, hnot, hsees, hr]

theorem launch_count (own : List Nat) (m : Meter) (d : Dispatcher) (k : Nat) (n : Encoded)
    (t : Target) :
    m.count own (launch d k n t).2 =
      (m.reads t.isHook).elim 0 fun stage => stage.weight (launch d k n t).1 := by
  have hbegun : m.count own [.attempted k t n] =
      (m.reads t.isHook).elim 0 fun stage => if stage.atBegin then 1 else 0 := by
    cases hr : m.reads t.isHook <;> simp [Meter.count, Meter.sees, hr]
  rcases launch_cases d k n t with ⟨x, hx⟩ | ⟨a, hx, ha⟩
  · rw [hx, Meter.count_cons, hbegun, count_ended]
    cases m.reads t.isHook with
    | none => rfl
    | some stage =>
      cases stage with
      | begun | ended => rfl
      | failed => exact Nat.zero_add _
  · have hout : m.count own [a] = 0 := by
      cases a with
      | published | requested => rfl
      | _ => cases ha
    rw [hx, Meter.count_cons, hbegun, hout]
    cases m.reads t.isHook with
    | none => rfl
    | some stage => cases stage <;> rfl

theorem launches_count (own : List Nat) (m : Meter) (d : Dispatcher) (k : Nat) (n : Encoded)
    (known : List BackendFailure) (hooks : List Hook) (since : Duration) :
    m.owed .resolving + m.count own (launches d k n hooks) =
      m.owed (.delivering known (launch d k n .broker).1
        (hooks.map fun h => ⟨h, (launch d k n (.hook h)).1⟩) since) := by
  have hsum : m.count own (launches d k n hooks) =
      ((targets hooks).map fun t => m.count own (launch d k n t).2).sum := List.countP_flatMap
  rw [hsum]
  simp only [targets, List.map_cons, List.map_map, List.sum_cons, launch_count, Target.isHook,
    Function.comp_def]
  cases m with
  | broker stage => simp [Meter.reads, Meter.owed]
  | hooks stage => simp [Meter.reads, Meter.owed, Function.comp_def]
  | _ => simp [Meter.reads, Meter.owed]

/-- A send that begins its deliveries owes what it has begun. -/
theorem deliver_balanced (own : List Nat) (hn : Apart d) (hs : d.send? s.number = some s)
    (hp : s.phase = .resolving) (known : List BackendFailure) (hooks : List Hook) :
    Balanced own d (deliver d s known hooks) := by
  refine .of_unheard (deliver_touches d s known hooks).unheard fun m => ?_
  let phase := Phase.delivering known (launch d s.number s.notification .broker).1
    (hooks.map fun h => ⟨h, (launch d s.number s.notification (.hook h)).1⟩) d.registry.now
  have hbalance := proceed_balance own (s := { s with phase := phase }) hn hs m
  rw [hp, ← launches_count own] at hbalance
  rw [deliver_eq]
  dsimp only [phase] at hbalance ⊢
  rw [Meter.count_append]
  omega

theorem onResolved_balanced (hn : Apart d) (hs : d.send? s.number = some s)
    (hp : s.phase = .resolving) (hown : s.number ∈ own) (result : Resolved) :
    Balanced own d
      ((onResolved d s result).1, .resolved s.number result :: (onResolved d s result).2) := by
  match result with
  | .ok e =>
    intro m
    have hdeliver := deliver_balanced own hn hs hp (e.failures.map ofConfiguration) e.hooks m
    have hc : m.count own [.resolved s.number (.ok e)] = 0 := by cases m <;> rfl
    have hw : m.waived own [.resolved s.number (.ok e)] = 0 := by cases m <;> rfl
    rw [← List.singleton_append, Meter.count_append, Meter.waived_append, hc, hw, Nat.zero_add,
      Nat.zero_add]
    exact hdeliver
  | .error (.storage x) =>
    intro m
    let d' := { d with stats := { d.stats with storageFailures := d.stats.storageFailures + 1 } }
    have hdeliver := deliver_balanced (d := d') own hn hs hp [ofStorage x] [] m
    have hstart : m.due d' =
        m.due d + m.count own [.resolved s.number (.error (.storage x))] := by
      cases m with
      | unresolved =>
        simp only [Meter.due, Meter.paid, Meter.count, List.countP_singleton, Meter.sees,
          lookupFailed, Bool.true_and, List.contains_iff_mem, hown, ↓reduceIte, d']
        exact Nat.add_right_comm _ _ _
      | broker stage => cases stage <;> rfl
      | hooks stage => cases stage <;> rfl
      | _ => rfl
    have hw : m.waived own [.resolved s.number (.error (.storage x))] = 0 := by cases m <;> rfl
    rw [← List.singleton_append, Meter.count_append, Meter.waived_append, hw, Nat.zero_add,
      ← Nat.add_assoc, ← hstart]
    exact hdeliver
  | .error .closed =>
    intro m
    have hw := weigh_dropSend m.owed hn hs
    rw [hp] at hw
    have hc : m.count own [.resolved s.number (.error .closed), .sent s.number (.error .closed)] =
        0 := by cases m <;> rfl
    have hwaived : m.waived own
        [.resolved s.number (.error .closed), .sent s.number (.error .closed)] =
        m.owed .resolving := by
      cases m with
      | admitted => simp [Meter.waived, Meter.waives, lookupRefused, Meter.owed, hown]
      | _ => rfl
    simp only [onResolved, hc, hwaived, Nat.add_zero]
    rw [Meter.due, Meter.due, ← hw, ← Nat.add_assoc]
    rfl

/-- What the registry says is passed on; the send whose call returns, if there is one, goes on in
between. -/
inductive Followed (d : Dispatcher) (outs : List Registry.Output) : Outcome → Prop where
  | passed (nobody : ∀ k ∈ returns outs, d.send? k = none) : Followed d outs (d, outs.map pass)
  | resolved (s : Send) (result : Resolved) (pre post : List Registry.Output)
      (waits : d.send? s.number = some s) (split : outs = pre ++ .returned s.number result :: post)
      (before : returns pre = []) (after : returns post = []) :
      Followed d outs ((onResolved d s result).1,
        pre.map pass ++ .resolved s.number result :: (onResolved d s result).2 ++ post.map pass)

theorem follow_passed (h : returns outs = []) (d : Dispatcher) :
    follow d outs = (d, outs.map pass) := by
  refine follow_unwaited fun k result hm => ?_
  have hk := mem_returns_of_returned hm
  rw [h] at hk
  cases hk

/-- With a step of the registry at most one call returns. -/
theorem follow_followed (h : (returns outs).length ≤ 1) (d : Dispatcher) :
    Followed d outs (follow d outs) := by
  cases hr : returns outs with
  | nil =>
    rw [follow_passed hr]
    exact .passed (by simp [hr])
  | cons k rest =>
    rw [hr, List.length_cons] at h
    obtain rfl : rest = [] := List.length_eq_zero_iff.mp (by omega)
    cases hs : d.send? k with
    | none =>
      rw [follow_unwaited fun j result hm => ?_]
      · exact .passed (by simp [hr, hs])
      · have hj := mem_returns_of_returned hm
        rw [hr, List.mem_singleton] at hj
        rw [hj, hs]
    | some s =>
      obtain ⟨result, pre, post, hsplit, hpre, hpost⟩ := returns_eq_singleton hr
      obtain rfl := send?_number hs
      have hfollow := follow_append d pre (.returned s.number result :: post)
      have hon : onOutput d (.returned s.number result) =
          ((onResolved d s result).1, .resolved s.number result :: (onResolved d s result).2) := by
        simp only [onOutput, hs]
      rw [follow_cons, follow_passed hpre, hon, follow_passed hpost] at hfollow
      rw [hsplit, hfollow]
      have hfollowed := Followed.resolved s result pre post hs hsplit hpre hpost
      rw [hsplit] at hfollowed
      simpa using hfollowed

/-- Of what the registry says only the returns of calls count here, and only those of sends. -/
theorem count_passed (m : Meter) (h : ∀ k ∈ returns outs, k ∉ own) :
    m.count own (outs.map pass) = 0 ∧ m.waived own (outs.map pass) = 0 := by
  have hnone : ∀ x ∈ outs.map pass, m.sees own x = false ∧ m.waives own x = false := by
    intro x hx
    obtain ⟨out, hm, rfl⟩ := List.mem_map.mp hx
    cases out with
    | returned k result =>
      have hk : own.contains k = false := by
        simpa using h k (mem_returns_of_returned hm)
      cases m <;> simp only [pass, Meter.sees, Meter.waives, hk, Bool.and_false, and_self]
    | _ => cases m <;> exact ⟨rfl, rfl⟩
  exact ⟨List.countP_eq_zero.mpr fun x hx => Bool.eq_false_iff.mp (hnone x hx).1,
    List.countP_eq_zero.mpr fun x hx => Bool.eq_false_iff.mp (hnone x hx).2⟩

/-- What is known of the sends in flight when the registry has said something. -/
structure Attentive (own : List Nat) (d : Dispatcher) (outs : List Registry.Output) : Prop where
  apart : Apart d
  owned : ∀ s ∈ d.sends, s.number ∈ own
  one : (returns outs).length ≤ 1
  waiting : ∀ k ∈ returns outs, ∀ s, d.send? k = some s → s.phase = .resolving
  /-- The call of a send returns only to it. -/
  awaited : ∀ k ∈ returns outs, k ∈ own → d.send? k ≠ none

theorem Attentive.balanced (h : Attentive own d outs) : Balanced own d (follow d outs) := by
  have hfollowed := follow_followed h.one d
  generalize follow d outs = x at hfollowed
  cases hfollowed with
  | passed nobody =>
    intro m
    have hfor : ∀ k ∈ returns outs, k ∉ own :=
      fun k hk hown => h.awaited k hk hown (nobody k hk)
    rw [(count_passed m hfor).1, (count_passed m hfor).2]
  | resolved s result pre post waits split before after =>
    have hk : s.number ∈ returns outs := by simp [split, returns]
    have hbalance := onResolved_balanced h.apart waits (h.waiting _ hk s waits)
      (h.owned s (mem_of_send? waits).1) result
    intro m
    have hquiet : ∀ l, returns l = [] →
        m.count own (l.map pass) = 0 ∧ m.waived own (l.map pass) = 0 := by
      intro l hl
      exact count_passed m (by simp [hl])
    have hm := hbalance m
    simp only [Meter.count_append, Meter.waived_append, hquiet pre before, hquiet post after,
      Nat.zero_add, Nat.add_zero]
    exact hm

/-- A delivery that was begun comes as far as its end brings it. -/
theorem Stage.weight_some (stage : Stage) (x : Delivery) :
    stage.weight (some x) = stage.weight none + if stage.atEnd x then 1 else 0 := by
  cases stage with
  | begun | ended => rfl
  | failed => exact (Nat.zero_add _).symm

/-- Where webhooks have distinct numbers, one outcome is recorded. -/
theorem record_weight {hooks : List HookAttempt} {a : HookAttempt} {hook : Nat}
    (hd : (hooks.map (·.hook.number)).Nodup)
    (ha : hooks.find? (fun a => a.hook.number == hook && a.outcome.isNone) = some a)
    (stage : Stage) (r : Delivery) :
    ((hooks.map (record hook r)).map fun a => stage.weight a.outcome).sum =
      (hooks.map fun a => stage.weight a.outcome).sum + if stage.atEnd r then 1 else 0 := by
  obtain ⟨pre, post, rfl, hrecord⟩ := record_split hd ha r
  have hnone := List.find?_some ha
  rw [Bool.and_eq_true] at hnone
  have hweight := stage.weight_some r
  rw [← Option.isNone_iff_eq_none.mp hnone.2] at hweight
  rw [hrecord]
  simp only [List.map_append, List.map_cons, List.sum_append, List.sum_cons, hweight]
  omega

/-- The outcome of a delivery adds to the debts of a send what is counted as its end. -/
theorem Told.owed {p q : Phase} {t : Target} {x : Delivery} (h : Told p t x q)
    (hd : ∀ before b hooks since, p = .delivering before b hooks since →
      (hooks.map (·.hook.number)).Nodup) (m : Meter) :
    m.owed q = m.owed p +
      (m.reads t.isHook).elim 0 fun stage => if stage.atEnd x then 1 else 0 := by
  cases h with
  | broker =>
    cases m with
    | broker stage => exact stage.weight_some _
    | _ => rfl
  | hook before b since asked =>
    cases m with
    | hooks stage => exact record_weight (hd _ _ _ _ rfl) asked stage _
    | _ => rfl

theorem Answered.balanced {x : Outcome} (h : Answered k d x) (own : List Nat) (hn : Apart d)
    (hd : ∀ s before b hooks since, d.send? k = some s → s.phase = .delivering before b hooks since →
      (hooks.map (·.hook.number)).Nodup) :
    Balanced own d x := by
  cases h with
  | dropped => exact .idle own d
  | @taken s t y phase found told =>
    obtain rfl := send?_number found
    have hunheard : heard (ended s.number t s.notification.event y ++
        (proceed d { s with phase }).2) = [] := by
      rw [heard_append, (proceed_touches d rfl).unheard]
      rfl
    refine .of_unheard hunheard fun m => ?_
    have hbalance := proceed_balance own (s := { s with phase }) hn found m
    have howed := told.owed (fun before b hooks since => hd s before b hooks since found) m
    rw [howed, ← count_ended own m s.number t s.notification.event y] at hbalance
    dsimp only at hbalance ⊢
    rw [Meter.count_append]
    omega

/-- A dispatcher is in order for a step. -/
structure Ready (own : List Nat) (d : Dispatcher) (s : Step) : Prop where
  apart : Apart d
  fresh : ∀ k n, s = .begin k n → k ∉ numbers d
  owned : ∀ k ∈ numbers d ++ sendsOf [s], k ∈ own
  /-- No send delivers to two webhooks of one number. -/
  hooks : ∀ k t before b hooks since, d.send? k = some t →
    t.phase = .delivering before b hooks since → (hooks.map (·.hook.number)).Nodup
  orderly : Orderly d s
  waiting : ∀ t, s.inner? d = some t → ∀ k ∈ returns (Registry.step d.registry t).2,
    ∀ u, d.send? k = some u → u.phase = .resolving
  awaited : ∀ t, s.inner? d = some t → ∀ k ∈ returns (Registry.step d.registry t).2,
    k ∈ own → d.send? k ≠ none ∨ ∃ n, s = .begin k n

theorem entered_balanced (own : List Nat) (d : Dispatcher) (k : Nat) (n : Encoded) :
    Balanced own d (entered d k n, [.counted (.notification n.event)]) := by
  refine .of_unheard rfl fun m => ?_
  have hw : weigh m.owed (entered d k n) = weigh m.owed d + m.owed .resolving := by
    simp [weigh, entered]
  simp only [Meter.due, hw]
  cases m with
  | notified => exact Nat.add_right_comm _ _ _
  | broker stage => cases stage <;> rfl
  | hooks stage => cases stage <;> rfl
  | _ => rfl

theorem Ready.one {t : Registry.Step} {s : Step} (h : Ready own d s) (hi : s.inner? d = some t) :
    (returns (Registry.step d.registry t).2).length ≤ 1 := by
  have ht := h.orderly t hi
  generalize Registry.step d.registry t = r at ht
  generalize r.1.calls = calls at ht
  cases ht with
  | idle _ _ _ _ hr | come _ _ _ hr | turn _ _ _ _ _ _ _ hr | atOnce _ _ _ _ hr
  | leave _ _ _ _ _ _ hr => simp [hr]

theorem Ready.apart_entered (h : Ready own d (.begin k n)) : Apart (entered d k n) := by
  unfold Apart
  rw [numbers_entered]
  exact List.concat_eq_append ▸ h.apart.concat (h.fresh k n rfl)

theorem Ready.begin_attentive (h : Ready own d (.begin k n)) (hopen : d.closed = false) :
    let t := Registry.step d.registry (.begin k n.applicationId)
    Attentive own { entered d k n with registry := t.1 } t.2 := by
  have hi : (Step.begin k n).inner? d = some (.begin k n.applicationId) := by
    simp [Step.inner?, hopen]
  have hsend : ∀ (r : Registry) (j : Nat), { entered d k n with registry := r }.send? j =
      (d.send? j).or (if k = j then some ⟨k, n, .resolving⟩ else none) :=
    fun _ j => send?_entered d j k n
  refine ⟨h.apart_entered, fun s hs => h.owned _ ?_, h.one hi, fun j hj u hu => ?_,
    fun j hj hown => ?_⟩
  · have hm : s.number ∈ numbers (entered d k n) := List.mem_map_of_mem hs
    rwa [numbers_entered] at hm
  · rw [hsend] at hu
    cases hd : d.send? j with
    | some v =>
      rw [hd] at hu
      cases hu
      exact h.waiting _ hi j hj u hd
    | none =>
      rw [hd, Option.none_or] at hu
      split at hu
      · cases hu
        rfl
      · cases hu
  · rw [hsend]
    rcases h.awaited _ hi j hj hown with hj | ⟨_, hj⟩
    · simp [hj]
    · cases hj
      simp

theorem Ready.registry_attentive {t : Registry.Step} (h : Ready own d (.registry t)) :
    Attentive own { d with registry := (Registry.step d.registry t).1 }
      (Registry.step d.registry t).2 := by
  refine ⟨h.apart, fun s hs => h.owned _ (List.mem_append_left _ (List.mem_map_of_mem hs)),
    h.one rfl, h.waiting t rfl, fun j hj hown => ?_⟩
  rcases h.awaited t rfl j hj hown with hj | ⟨_, hj⟩
  · exact hj
  · cases hj

/-- What a step adds to the statistics, debts included, is what comes out of it. -/
theorem Ready.balanced {s : Step} (h : Ready own d s) : Balanced own d (step d s) := by
  cases s with
  | begin k n =>
    cases hc : d.closed with
    | true =>
      simp only [step, begin, hc, ↓reduceIte]
      intro m
      cases m <;> rfl
    | false =>
      rw [step, begin_entered hc]
      exact (entered_balanced own d k n).trans (h.begin_attentive hc).balanced
  | registry t => exact h.registry_attentive.balanced
  | brokerAnswer k a => exact (brokerAnswer_answered d k a).balanced own h.apart (h.hooks k)
  | hookAnswer k hook r =>
    exact (hookAnswer_answered d k hook r).balanced own h.apart (h.hooks k)
  | beginClose c =>
    obtain ⟨outs, word, hquiet, hword, ho, hsends, hstats⟩ := beginClose_cases d c
    intro m
    have hcount : m.count own [word] = 0 := by
      cases word with
      | disconnected | closed => rfl
      | _ => cases hword
    have hwaived : m.waived own [word] = 0 := by
      cases word with
      | disconnected | closed => rfl
      | _ => cases hword
    have hnone : ∀ k ∈ returns outs, k ∉ own := by simp [hquiet]
    obtain ⟨hc, hw⟩ := count_passed m hnone
    rw [step, ho, Meter.count_append, Meter.waived_append, hc, hw, hcount, hwaived, Meter.due,
      weigh, hsends, hstats]
    rfl
  | closeAnswer a =>
    simp only [step, closeAnswer]
    split
    · exact fun _ => rfl
    · exact .idle own d

/-- A run with distinct numbers leaves the dispatcher in order for the next step. -/
theorem run_ready (broker : BrokerBackend) (ttl : Option Duration) {s : Step} {rest : List Step}
    (hd : Distinct (steps ++ s :: rest)) :
    Ready (sendsOf (steps ++ s :: rest)) (run (fresh broker ttl) steps).1 s := by
  have hsplit : steps ++ s :: rest = steps ++ [s] ++ rest := by simp
  have hd' : Distinct (steps ++ [s]) := (hsplit ▸ hd).append_left
  have hbefore : Distinct steps := hd'.append_left
  refine ⟨run_apart hbefore, fun k n hs hk => hd'.fresh_send hs (run_in_flight hbefore hk),
    fun k hk => ?_, fun k t before b hooks since ht hphase => ?_, run_orderly hd',
    fun t ht k hk u hu => ?_, fun t ht k hk hown => ?_⟩
  · rw [hsplit, sendsOf_append, sendsOf_append]
    exact List.mem_append_left _ ((List.mem_append.mp hk).elim
      (fun h => List.mem_append_left _ (run_in_flight hbefore h)) (List.mem_append_right _))
  · obtain ⟨n, -, hstory⟩ := run_story_of_send hbefore ht
    exact hstory.hooks_distinct ht hphase
  · obtain ⟨n, hn, hstory⟩ := run_story_of_send hbefore hu
    rcases run_returning hd' ht hk with hcall | hb
    · rw [hstory.calling hcall] at hu
      cases hu
      rfl
    · exact absurd (mem_begun.mpr (.inl ⟨n, hn⟩)) (hd'.fresh hb)
  · rcases run_returning hd' ht hk with hcall | hb
    · rcases mem_begun.mp (run_called hbefore hcall) with ⟨n, hn⟩ | ⟨a, ha⟩
      · exact .inl (by simp [(run_story broker ttl hbefore hn).calling hcall])
      · exact absurd (List.mem_append_left _ ha) (hd.apart_call hown)
    · cases s with
      | begin j n =>
        cases hb
        exact .inr ⟨n, rfl⟩
      | registry t =>
        cases t with
        | begin j a =>
          cases hb
          exact absurd (by simp) (hd.apart_call hown (a := a))
        | _ => cases hb
      | _ => cases hb

/-- After every run of a fresh dispatcher, what is counted and what is still owed make up what has
come out. -/
theorem run_balanced (broker : BrokerBackend) (ttl : Option Duration) (hd : Distinct steps) :
    Balanced (sendsOf steps) (fresh broker ttl) (run (fresh broker ttl) steps) := by
  suffices h : ∀ before rest, Distinct (before ++ rest) →
      Balanced (sendsOf (before ++ rest)) (fresh broker ttl) (run (fresh broker ttl) before) by
    simpa using h steps [] (by simpa using hd)
  intro before
  induction before using List.reverseRecOn with
  | nil => exact fun rest _ => .idle _ _
  | append_singleton before s ih =>
    intro rest hd
    rw [List.append_assoc, List.singleton_append] at hd ⊢
    rw [run_snoc]
    exact (ih (s :: rest) hd).trans (run_ready broker ttl hd).balanced

/-- Where nothing is in flight nothing is owed. -/
theorem run_paid (broker : BrokerBackend) (ttl : Option Duration) (hd : Distinct steps)
    (hidle : (run (fresh broker ttl) steps).1.sends = []) (m : Meter) :
    m.paid (run (fresh broker ttl) steps).1.stats +
        m.waived (sendsOf steps) (run (fresh broker ttl) steps).2 =
      m.count (sendsOf steps) (run (fresh broker ttl) steps).2 := by
  have hb := run_balanced broker ttl hd m
  have hstart : m.due (fresh broker ttl) = 0 := by
    cases m with
    | broker stage => cases stage <;> rfl
    | hooks stage => cases stage <;> rfl
    | _ => rfl
  rw [hstart, Nat.zero_add, Meter.due, weigh, hidle] at hb
  exact hb

end Uplink.Dispatch
