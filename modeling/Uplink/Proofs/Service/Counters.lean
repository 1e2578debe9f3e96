import Uplink.Ingress.Answer
import Uplink.Proofs.Dispatch.Accounts
import Uplink.Proofs.Registry.Counts

namespace Uplink.Service

open Backend Broker Dispatch Ingress Notification Registry Store Time

variable {d : Dispatcher} {s : Service} {k : Nat} {n : Encoded} {o o' : List Dispatch.Output}
  {p : List String → Bool}

/-- The sum of the samples with such labels. -/
def Tally.sum (p : List String → Bool) (t : Tally) : Nat :=
  (t.map fun x => if p x.1 then x.2 else 0).sum

theorem Tally.total_eq_sum (t : Tally) : t.total = Tally.sum (fun _ => true) t := by
  induction t with
  | nil => rfl
  | cons x t ih =>
    obtain ⟨labels, n⟩ := x
    rw [Tally.total, ih]
    rfl

/-- Whichever samples are summed, each label is counted where it belongs. -/
theorem Tally.sum_add (p : List String → Bool) (labels : List String) (t : Tally) :
    Tally.sum p (t.add labels) = Tally.sum p t + if p labels then 1 else 0 := by
  induction t with
  | nil => simp [Tally.add, Tally.sum]
  | cons x t ih =>
    obtain ⟨other, n⟩ := x
    simp only [Tally.add]
    split
    · rename_i h
      subst h
      simp only [Tally.sum, List.map_cons, List.sum_cons]
      split <;> omega
    · split
      · simp only [Tally.sum, List.map_cons, List.sum_cons]
        omega
      · simp only [Tally.sum, List.map_cons, List.sum_cons] at ih ⊢
        omega

/-- The counters among the metrics. -/
inductive Counter where
  | notifications
  | deliveries
  | lookups
  | loads
  | integrationErrors

def Counter.tally (f : Counter) (m : Metrics) : Tally :=
  match f with
  | .notifications => m.notifications
  | .deliveries => m.deliveries
  | .lookups => m.lookups
  | .loads => m.loads
  | .integrationErrors => m.integrationErrors

/-- The labels under which a counter counts something, if it does. -/
def Counter.labels : Counter → Dispatch.Count → Option (List String)
  | .notifications, .notification event => some [event.name]
  | .deliveries, .delivery backend event success =>
    some [backend, event.name, Metrics.outcome success]
  | .lookups, .registry .hit => some ["hit"]
  | .lookups, .registry .miss => some ["miss"]
  | .loads, .registry (.loaded success) => some [Metrics.outcome success]
  | .integrationErrors, .registry (.integrationError kind) => some [kind]
  | _, _ => none

theorem Counter.tally_count (f : Counter) (m : Metrics) (c : Dispatch.Count) :
    f.tally (m.count c) =
      match f.labels c with
      | some l => (f.tally m).add l
      | none => f.tally m := by
  cases c with
  | registry c => cases f <;> cases c <;> rfl
  | _ => cases f <;> rfl

/-- Samples are what was counted under their labels. -/
theorem Counter.sum_foldl (f : Counter) (p : List String → Bool) (m : Metrics)
    (cs : List Dispatch.Count) :
    (f.tally (cs.foldl Metrics.count m)).sum p =
      (f.tally m).sum p + cs.countP fun c => (f.labels c).any p := by
  induction cs generalizing m with
  | nil => rfl
  | cons c cs ih =>
    rw [List.foldl_cons, ih, f.tally_count m c, List.countP_cons]
    cases hl : f.labels c with
    | none => simp
    | some l =>
      simp only [Tally.sum_add, Option.any_some]
      omega

/-- What is counted among the outputs. -/
def counted (o : List Dispatch.Output) : List Dispatch.Count :=
  o.filterMap fun
    | .counted c => some c
    | _ => none

@[simp] theorem counted_append (o o' : List Dispatch.Output) :
    counted (o ++ o') = counted o ++ counted o' :=
  List.filterMap_append

/-- There are as many counts of deliveries as deliveries end, by backend and outcome. -/
def Paired (o : List Dispatch.Output) : Prop :=
  ∀ p : String → Bool → Bool,
    (counted o).countP (fun
      | .delivery backend _ success => p backend success
      | _ => false) =
    o.countP fun
      | .delivered _ t x => p t.name x.toBool
      | _ => false

theorem Paired.append (h : Paired o) (h' : Paired o') : Paired (o ++ o') := by
  intro p
  rw [counted_append, List.countP_append, List.countP_append, h p, h' p]

/-- Neither ends a delivery nor counts one. -/
def plain : Dispatch.Output → Bool
  | .delivered _ _ _ | .counted (.delivery _ _ _) => false
  | _ => true

theorem Paired.of_plain (h : ∀ x ∈ o, plain x = true) : Paired o := by
  intro p
  rw [List.countP_eq_zero.mpr, List.countP_eq_zero.mpr]
  · intro x hx
    cases x with
    | delivered j t y => cases h _ hx
    | _ => exact Bool.false_ne_true
  · intro c hc
    obtain ⟨x, hx, hc⟩ := List.mem_filterMap.mp hc
    cases x with
    | counted c' =>
      cases hc
      cases c with
      | delivery b e ok => cases h _ hx
      | _ => exact Bool.false_ne_true
    | _ => cases hc

theorem paired_ended (k : Nat) (t : Target) (event : Event) (x : Delivery) :
    Paired (ended k t event x) := by
  intro p
  simp [ended, counted, List.countP_cons]

theorem paired_proceed (d : Dispatcher) (s : Send) : Paired (proceed d s).2 := by
  refine .of_plain fun x hx => ?_
  obtain ⟨result, rfl⟩ := proceed_says d s x hx
  rfl

theorem paired_launches (d : Dispatcher) (k : Nat) (n : Encoded) (hooks : List Hook) :
    Paired (launches d k n hooks) := by
  have hlaunch : ∀ t, Paired (launch d k n t).2 := by
    intro t
    have hstart : Paired [.attempted k t n] := .of_plain (by simp [plain])
    rcases launch_cases d k n t with ⟨x, hx⟩ | ⟨a, hx, ha⟩
    · rw [hx]
      exact hstart.append (paired_ended k t n.event x)
    · rw [hx]
      refine hstart.append (.of_plain fun y hy => ?_ : Paired [a])
      rw [List.mem_singleton.mp hy]
      cases a with
      | published | requested => rfl
      | _ => cases ha
  unfold launches
  induction targets hooks with
  | nil => exact fun _ => rfl
  | cons t ts ih => exact (hlaunch t).append ih

theorem paired_onResolved (d : Dispatcher) (s : Send) (result : Resolved) :
    Paired (onResolved d s result).2 := by
  have hdeliver : ∀ d known hooks, Paired (deliver d s known hooks).2 := by
    intro d known hooks
    rw [deliver_eq]
    exact (paired_launches d _ _ hooks).append (paired_proceed d _)
  match result with
  | .ok e => exact hdeliver d _ _
  | .error (.storage e) => exact hdeliver _ _ _
  | .error .closed => exact .of_plain (by simp [onResolved, plain])

theorem paired_follow (d : Dispatcher) (outs : List Registry.Output) : Paired (follow d outs).2 := by
  refine collect_keeps (f := onOutput) (P := fun _ o => Paired o) (o := []) (fun d' o out h => ?_)
    (fun _ => rfl) outs
  refine h.append ?_
  cases out with
  | returned j result =>
    simp only [onOutput]
    split
    · exact Paired.append (o := [.resolved j result]) (.of_plain (by simp [plain]))
        (paired_onResolved _ _ _)
    · exact .of_plain (by simp [plain])
  | _ => exact .of_plain (by simp [onOutput, plain])

theorem paired_answered {d : Dispatcher} {k : Nat} {x : Dispatch.Outcome} (h : Answered k d x) :
    Paired x.2 := by
  cases h with
  | dropped => exact fun _ => rfl
  | taken => exact (paired_ended _ _ _ _).append (paired_proceed d _)

theorem step_paired (d : Dispatcher) (t : Dispatch.Step) : Paired (Dispatch.step d t).2 := by
  cases t with
  | begin j m =>
    cases hc : d.closed with
    | true =>
      simp only [Dispatch.step, Dispatch.begin, hc, ↓reduceIte]
      exact .of_plain (by simp [plain])
    | false =>
      rw [Dispatch.step, begin_entered hc]
      exact Paired.append (o := [.counted (.notification m.event)]) (.of_plain (by simp [plain]))
        (paired_follow _ _)
  | registry t => exact paired_follow _ _
  | brokerAnswer j a => exact paired_answered (brokerAnswer_answered d j a)
  | hookAnswer j hook r => exact paired_answered (hookAnswer_answered d j hook r)
  | beginClose c =>
    obtain ⟨outs, word, -, hword, ho, -, -⟩ := beginClose_cases d c
    rw [Dispatch.step, ho]
    refine .append (.of_plain fun x hx => ?_) (.of_plain fun x hx => ?_)
    · obtain ⟨out, -, rfl⟩ := List.mem_map.mp hx
      cases out <;> rfl
    · rw [List.mem_singleton.mp hx]
      cases word with
      | disconnected | closed => rfl
      | _ => cases hword
  | closeAnswer a =>
    simp only [Dispatch.step, closeAnswer]
    split
    · exact .of_plain (by simp [plain])
    · exact fun _ => rfl

theorem run_paired (d : Dispatcher) (steps : List Dispatch.Step) :
    Paired (Dispatch.run d steps).2 :=
  collect_keeps (f := Dispatch.step) (P := fun _ o => Paired o) (o := [])
    (fun d' _ t h => h.append (step_paired d' t)) (fun _ => rfl) steps

/-- Something that happens to a service: a step of its dispatcher, or a change of the world around
it. -/
inductive Happening where
  | step (t : Dispatch.Step)
  | change (source : Source) (outage : Option String) (publisher : Publisher)
      (far : Webhook.FarSide)

def happen (s : Service) : Happening → Service
  | .step t => (s.perform t).1
  | .change source outage publisher far => { s with source, outage, publisher, far }

def Happening.step? : Happening → Option Dispatch.Step
  | .step t => some t
  | .change _ _ _ _ => none

def stepsOf (hs : List Happening) : List Dispatch.Step := hs.filterMap Happening.step?

/-- What becomes of a service to which all this happens. -/
def lives (s : Service) (hs : List Happening) : Service := hs.foldl happen s

/-- What outputs leave of the service that is of interest here. -/
structure Noted (s : Service) (o : List Dispatch.Output) (s' : Service) : Prop where
  dispatcher : s'.dispatcher = s.dispatcher
  metrics : s'.metrics = (counted o).foldl Metrics.count s.metrics
  lookups : s'.lookups = s.lookups + (asks (heard o)).length

theorem foldl_note (s : Service) (o : List Dispatch.Output) : Noted s o (o.foldl note s) := by
  induction o generalizing s with
  | nil => exact ⟨rfl, rfl, rfl⟩
  | cons x o ih =>
    obtain ⟨hd, hm, hl⟩ := ih (s.note x)
    rw [List.foldl_cons]
    cases x with
    | asked k a =>
      refine ⟨hd, hm, hl.trans ?_⟩
      change s.lookups + 1 + _ = s.lookups + (asks (.asked k a :: heard o)).length
      simp only [asks, List.filterMap_cons, List.length_cons]
      omega
    | counted c => cases c <;> exact ⟨hd, hm, hl⟩
    | _ => exact ⟨hd, hm, hl⟩

/-- A service that has lived through something, by the run of its dispatcher. -/
structure Ran (s : Service) (hs : List Happening) (s' : Service) : Prop where
  dispatcher : s'.dispatcher = (Dispatch.run s.dispatcher (stepsOf hs)).1
  metrics : s'.metrics =
    (counted (Dispatch.run s.dispatcher (stepsOf hs)).2).foldl Metrics.count s.metrics
  lookups : s'.lookups =
    s.lookups + (asks (heard (Dispatch.run s.dispatcher (stepsOf hs)).2)).length

theorem lives_ran (s : Service) (hs : List Happening) : Ran s hs (s.lives hs) := by
  induction hs using List.reverseRecOn with
  | nil => exact ⟨rfl, rfl, rfl⟩
  | append_singleton hs h ih =>
    obtain ⟨hd, hm, hl⟩ := ih
    have hlives : s.lives (hs ++ [h]) = (s.lives hs).happen h := List.foldl_concat happen s h hs
    rw [hlives]
    cases h with
    | change source outage publisher far =>
      have hsteps : stepsOf (hs ++ [.change source outage publisher far]) = stepsOf hs := by
        simp [stepsOf, Happening.step?]
      exact ⟨hsteps ▸ hd, hsteps ▸ hm, hsteps ▸ hl⟩
    | step t =>
      have hsteps : stepsOf (hs ++ [.step t]) = stepsOf hs ++ [t] := by
        simp [stepsOf, Happening.step?]
      obtain ⟨nd, nm, nl⟩ := foldl_note
        { s.lives hs with dispatcher := (Dispatch.step (s.lives hs).dispatcher t).1 }
        (Dispatch.step (s.lives hs).dispatcher t).2
      rw [hd] at nd nm nl
      have hperform : (s.lives hs).happen (.step t) =
          (Dispatch.step (s.lives hs).dispatcher t).2.foldl note
            { s.lives hs with dispatcher := (Dispatch.step (s.lives hs).dispatcher t).1 } := rfl
      refine ⟨?_, ?_, ?_⟩
      · rw [hperform, hsteps, Dispatch.run_snoc, hd]
        exact nd
      · rw [hperform, hsteps, Dispatch.run_snoc, counted_append, List.foldl_append, ← hm, hd]
        exact nm
      · rw [hperform, hsteps, Dispatch.run_snoc, heard_append, asks_append, List.length_append,
          ← Nat.add_assoc, ← hl, hd]
        exact nl

theorem told_heard (o : List Dispatch.Output) :
    told (heard o) = (counted o).filterMap fun
      | .registry c => some c
      | _ => none := by
  rw [told, heard, counted, List.filterMap_filterMap, List.filterMap_filterMap]
  refine List.filterMap_congr fun x _ => ?_
  cases x with
  | counted c => cases c <;> rfl
  | _ => rfl

/-- What the registry counts, among all that is counted. -/
theorem counts_heard (q : Registry.Count → Bool) (o : List Dispatch.Output) :
    counts q (heard o) = (counted o).countP fun
      | .registry c => q c
      | _ => false := by
  rw [counts, told_heard, List.countP_filterMap]
  refine List.countP_congr fun c _ => ?_
  cases c <;> simp

theorem countP_counted (q : Dispatch.Count → Bool) (o : List Dispatch.Output) :
    (counted o).countP q = o.countP fun
      | .counted c => q c
      | _ => false := by
  rw [counted, List.countP_filterMap]
  refine List.countP_congr fun x _ => ?_
  cases x <;> simp

/-- The samples of a backend. -/
def ofBackend (name : String) (labels : List String) : Bool := labels.head? == some name

/-- The samples of a backend that count failures. -/
def failuresAt (name : String) (labels : List String) : Bool :=
  ofBackend name labels && labels.getLast? == some (Metrics.outcome false)

theorem deliveries_ofBackend (name : String) (o : List Dispatch.Output) (h : Paired o) :
    ((counted o).countP fun c => (Counter.deliveries.labels c).any (ofBackend name)) =
      o.countP fun
        | .delivered _ t _ => t.name == name
        | _ => false := by
  rw [← h fun backend _ => backend == name]
  refine List.countP_congr fun c _ => ?_
  cases c <;> simp [Counter.labels, ofBackend]

theorem deliveries_failuresAt (name : String) (o : List Dispatch.Output) (h : Paired o) :
    ((counted o).countP fun c => (Counter.deliveries.labels c).any (failuresAt name)) =
      o.countP fun
        | .delivered _ t x => t.name == name && !x.toBool
        | _ => false := by
  rw [← h fun backend success => backend == name && !success]
  refine List.countP_congr fun c _ => ?_
  cases c with
  | delivery backend event success =>
    cases success <;> simp [Counter.labels, failuresAt, ofBackend, Metrics.outcome]
  | _ => simp [Counter.labels]

theorem count_notified (own : List Nat) (o : List Dispatch.Output) :
    Meter.count .notified own o =
      (counted o).countP fun c => (Counter.notifications.labels c).any fun _ => true := by
  rw [countP_counted]
  refine List.countP_congr fun x _ => ?_
  cases x with
  | counted c =>
    cases c with
    | registry c => cases c <;> rfl
    | _ => rfl
  | _ => rfl

theorem name_eq (hook : Bool) (t : Target) :
    (t.name == if hook then WebhookBackend.name else BrokerBackend.name) = (t.isHook == hook) := by
  cases t <;> cases hook <;> rfl

/-- The statistics of deliveries to the broker, or to webhooks, count them by the backend's name. -/
theorem count_ofBackend (hook : Bool) (own : List Nat) (o : List Dispatch.Output) :
    let meter := if hook then Meter.hooks else Meter.broker
    let name := if hook then WebhookBackend.name else BrokerBackend.name
    Meter.count (meter .ended) own o = o.countP (fun
        | .delivered _ t _ => t.name == name
        | _ => false) ∧
      Meter.count (meter .failed) own o = o.countP fun
        | .delivered _ t x => t.name == name && !x.toBool
        | _ => false := by
  refine ⟨List.countP_congr fun x _ => ?_, List.countP_congr fun x _ => ?_⟩
  all_goals
    cases x with
    | delivered j t y =>
      simp only [name_eq]
      cases hook <;> cases t <;> cases y <;>
        simp [Meter.sees, Meter.reads, Target.isHook, Stage.atEnd, failed]
    | attempted j t m =>
      cases hook <;> cases t <;> simp [Meter.sees, Meter.reads, Target.isHook, Stage.atBegin]
    | _ => cases hook <;> rfl

theorem countP_add {α : Type} {p q r : α → Bool}
    (h : ∀ x, (p x).toNat = (q x).toNat + (r x).toNat) (l : List α) :
    l.countP p = l.countP q + l.countP r := by
  induction l with
  | nil => rfl
  | cons x l ih =>
    have hx := h x
    simp only [List.countP_cons, ih]
    cases hp : p x <;> cases hq : q x <;> cases hr : r x <;> simp_all <;> omega

/-- The samples of lookups and loads are what the registry counts. -/
structure Heard (o : List Dispatch.Output) : Prop where
  hits : ((counted o).countP fun c => (Counter.lookups.labels c).any (· == ["hit"])) =
    counts Count.isHit (heard o)
  misses : ((counted o).countP fun c => (Counter.lookups.labels c).any (· == ["miss"])) =
    counts Count.isMiss (heard o)
  failures : ((counted o).countP fun c =>
    (Counter.loads.labels c).any (· == [Metrics.outcome false])) = counts Count.isFailure (heard o)
  loads : ((counted o).countP fun c =>
      (Counter.loads.labels c).any (· == [Metrics.outcome true])) +
    ((counted o).countP fun c => (Counter.loads.labels c).any (· == [Metrics.outcome false])) =
      counts Count.isLoaded (heard o)
  errors : ((counted o).countP fun c => (Counter.integrationErrors.labels c).any fun _ => true) =
    counts Count.isError (heard o)

theorem heard_counts (o : List Dispatch.Output) : Heard o := by
  constructor
  case loads =>
    rw [counts_heard]
    refine (countP_add (fun c => ?_) _).symm
    cases c with
    | registry c =>
      cases c with
      | loaded success => cases success <;> rfl
      | _ => rfl
    | _ => rfl
  all_goals
    rw [counts_heard]
    refine List.countP_congr fun c _ => ?_
    cases c with
    | registry c =>
      cases c with
      | hit | miss => decide
      | loaded success => cases success <;> decide
      | integrationError | cached => rfl
    | _ => rfl

/-- Where neither sends nor calls of their own are in flight, no call is. -/
theorem run_no_calls {broker : BrokerBackend} {ttl : Option Duration} {steps : List Dispatch.Step}
    (hd : Dispatch.Distinct steps) (hidle : (Dispatch.run (fresh broker ttl) steps).1.sends = [])
    (hown : ∀ k a, .registry (.begin k a) ∈ steps →
      k ∉ (Dispatch.run (fresh broker ttl) steps).1.registry.calls.map (·.number)) :
    (Dispatch.run (fresh broker ttl) steps).1.registry.calls = [] := by
  refine List.eq_nil_iff_forall_not_mem.mpr fun c hc => ?_
  have hcall : c.number ∈ (Dispatch.run (fresh broker ttl) steps).1.registry.calls.map (·.number) :=
    List.mem_map_of_mem hc
  rcases Dispatch.mem_begun.mp (run_called hd hcall) with ⟨n, hn⟩ | ⟨a, ha⟩
  · have hwaits := (run_story broker ttl hd hn).calling hcall
    simp [Dispatcher.send?, hidle] at hwaits
  · exact hown _ a ha hcall

/-- What the metrics count and what the statistics say is the same. -/
structure Agreed (s : Service) : Prop where
  notifications : s.metrics.notifications.total = s.dispatcher.stats.totalSent
  broker : s.metrics.deliveries.sum (ofBackend BrokerBackend.name) =
    s.dispatcher.stats.totalDelivered + s.dispatcher.stats.totalFailed
  brokerFailures : s.metrics.deliveries.sum (failuresAt BrokerBackend.name) =
    s.dispatcher.stats.brokerFailures
  hooks : s.metrics.deliveries.sum (ofBackend WebhookBackend.name) =
    s.dispatcher.stats.integrationDeliveries
  hookFailures : s.metrics.deliveries.sum (failuresAt WebhookBackend.name) =
    s.dispatcher.stats.integrationFailures
  hits : s.metrics.lookups.sum (· == ["hit"]) = s.registry.stats.hits
  misses : s.metrics.lookups.sum (· == ["miss"]) = s.registry.stats.loads
  lookups : s.registry.stats.loads = s.lookups
  failures : s.metrics.loads.sum (· == [Metrics.outcome false]) = s.registry.stats.loadFailures
  loads : s.metrics.loads.sum (· == [Metrics.outcome true]) +
    s.metrics.loads.sum (· == [Metrics.outcome false]) = s.registry.stats.loads
  errors : s.metrics.integrationErrors.total = s.registry.stats.integrationErrors

/-- How many applications are cached, as the service says when it is asked for its metrics or for
its health. -/
structure Served (s : Service) (cached : Nat) : Prop where
  metrics : ∀ production (r : Ingress.Request), r.method = "GET" → r.target = "/metrics" →
    ∃ lines : List String,
      (Ingress.answer production s r).2.body = .text (String.join (lines.map (· ++ "\n"))) ∧
      s!"lora_notify_cached_applications {cached}" ∈ lines
  health : ∀ production (r : Ingress.Request), r.method = "GET" → r.target = "/health" →
    ∃ v, (Ingress.answer production s r).2.body = .json v ∧
      (v.get? "integrations").bind (·.get? "cached_applications") = some (.int cached)

theorem cached_line (m : Metrics) :
    s!"lora_notify_cached_applications {m.cachedApplications}" ∈ m.render := by
  have hname : "lora_notify_cached_applications" ++ "" ++ " " =
      "lora_notify_cached_applications " := rfl
  have hline : s!"lora_notify_cached_applications {m.cachedApplications}" ∈
      Metrics.gauge "lora_notify_cached_applications"
        "Number of applications with cached backends" m.cachedApplications :=
    List.mem_append_right _ (List.mem_singleton.mpr (congrArg (· ++ _) hname.symm))
  exact List.mem_append_left _ (List.mem_append_left _ (List.mem_append_left _
    (List.mem_append_left _ (List.mem_append_right _ hline))))

theorem served (s : Service) : Served s s.registry.cachedApplications where
  metrics production r hm ht := by
    have hroute : Route.ofTarget r.target = some .metrics := by
      rw [ht]
      rfl
    refine ⟨s.sampled.metrics.render, ?_, cached_line s.sampled.metrics⟩
    simp only [Ingress.answer, hroute, hm]
    rfl
  health production r hm ht := by
    have hroute : Route.ofTarget r.target = some .health := by
      rw [ht]
      rfl
    have hanswer : (Ingress.answer production s r).2 = health s := by
      simp only [Ingress.answer, hroute, hm]
      rfl
    rw [hanswer]
    exact ⟨_, rfl, rfl⟩

/-- In every state of a service in which nothing is in flight, the metrics it has counted since it
started match the statistics of its dispatcher and of its registry, and whoever asks for the metrics
is told of as many cached applications as who asks for the health. -/
theorem counters_agree (broker : BrokerBackend) (ttl : Option Duration) (source : Source)
    (far : Webhook.FarSide) (hs : List Happening) (hd : Dispatch.Distinct (stepsOf hs))
    (hidle : (lives (start broker ttl source far) hs).dispatcher.sends = [])
    (hown : ∀ k a, .step (.registry (.begin k a)) ∈ hs →
      k ∉ (lives (start broker ttl source far) hs).registry.calls.map (·.number)) :
    Agreed (lives (start broker ttl source far) hs) ∧
      ∃ cached, Served (lives (start broker ttl source far) hs) cached := by
  refine ⟨?_, _, served _⟩
  obtain ⟨hdispatcher, hmetrics, hlookups⟩ := lives_ran (start broker ttl source far) hs
  change (lives _ hs).dispatcher = (Dispatch.run (fresh broker ttl) (stepsOf hs)).1 at hdispatcher
  change (lives _ hs).metrics =
    (counted (Dispatch.run (fresh broker ttl) (stepsOf hs)).2).foldl Metrics.count .zero at hmetrics
  change (lives _ hs).lookups =
    0 + (asks (heard (Dispatch.run (fresh broker ttl) (stepsOf hs)).2)).length at hlookups
  have hregistry : (lives (start broker ttl source far) hs).registry =
      (Dispatch.run (fresh broker ttl) (stepsOf hs)).1.registry := congrArg _ hdispatcher
  rw [hdispatcher] at hidle
  have hcalls : (Dispatch.run (fresh broker ttl) (stepsOf hs)).1.registry.calls = [] := by
    refine run_no_calls hd hidle fun k a ha => ?_
    rw [← hregistry]
    refine hown k a ?_
    obtain ⟨h, hm, he⟩ := List.mem_filterMap.mp ha
    cases h with
    | step t =>
      cases he
      exact hm
    | change => cases he
  -- the registry's own account, for the run inside
  obtain ⟨hr, hh⟩ := Prod.mk.inj (run_inner (fresh broker ttl) (stepsOf hs))
  have htold : Told (Registry.start ttl)
      ((Dispatch.run (fresh broker ttl) (stepsOf hs)).1.registry,
        heard (Dispatch.run (fresh broker ttl) (stepsOf hs)).2) := by
    rw [hr, hh]
    exact run_told ttl (hd.inner (fresh broker ttl))
  have hpaired := run_paired (fresh broker ttl) (stepsOf hs)
  have hmeter := fun (m : Meter) (h : m ≠ .admitted) => run_counted hd hidle h
  have hsum : ∀ (f : Counter) p, (f.tally (lives (start broker ttl source far) hs).metrics).sum p =
      (counted (Dispatch.run (fresh broker ttl) (stepsOf hs)).2).countP
        fun c => (f.labels c).any p := by
    intro f p
    have hzero : (f.tally .zero).sum p = 0 := by cases f <;> rfl
    rw [hmetrics, f.sum_foldl, hzero, Nat.zero_add]
  have hloadings : loadings (Dispatch.run (fresh broker ttl) (stepsOf hs)).1.registry = 0 := by
    rw [loadings, hcalls]
    rfl
  obtain ⟨hhits, hloads, hasked, hfailures, herrors, hended⟩ := htold
  obtain ⟨lhits, lmisses, lfailures, lloads, lerrors⟩ :=
    heard_counts (Dispatch.run (fresh broker ttl) (stepsOf hs)).2
  obtain ⟨bended, bfailed⟩ := count_ofBackend false (sendsOf (stepsOf hs))
    (Dispatch.run (fresh broker ttl) (stepsOf hs)).2
  obtain ⟨wended, wfailed⟩ := count_ofBackend true (sendsOf (stepsOf hs))
    (Dispatch.run (fresh broker ttl) (stepsOf hs)).2
  constructor
  · rw [Tally.total_eq_sum, hdispatcher]
    exact (hsum .notifications _).trans ((count_notified _ _).symm.trans
      (hmeter .notified (by simp)).symm)
  · rw [hdispatcher]
    exact (hsum .deliveries _).trans ((deliveries_ofBackend _ _ hpaired).trans
      (bended.symm.trans (hmeter (.broker .ended) (by simp)).symm))
  · rw [hdispatcher]
    exact (hsum .deliveries _).trans ((deliveries_failuresAt _ _ hpaired).trans
      (bfailed.symm.trans (hmeter (.broker .failed) (by simp)).symm))
  · rw [hdispatcher]
    exact (hsum .deliveries _).trans ((deliveries_ofBackend _ _ hpaired).trans
      (wended.symm.trans (hmeter (.hooks .ended) (by simp)).symm))
  · rw [hdispatcher]
    exact (hsum .deliveries _).trans ((deliveries_failuresAt _ _ hpaired).trans
      (wfailed.symm.trans (hmeter (.hooks .failed) (by simp)).symm))
  · rw [hregistry, hhits]
    exact (hsum .lookups _).trans (lhits.trans (Nat.zero_add _).symm)
  · rw [hregistry, hloads]
    exact (hsum .lookups _).trans (lmisses.trans (Nat.zero_add _).symm)
  · rw [hregistry, hlookups, hloads, hasked]
    rfl
  · rw [hregistry, hfailures]
    exact (hsum .loads _).trans (lfailures.trans (Nat.zero_add _).symm)
  · rw [hregistry, hloads]
    rw [hloadings] at hended
    exact (congrArg₂ (· + ·) (hsum .loads _) (hsum .loads _)).trans
      (lloads.trans ((Nat.zero_add _).symm.trans hended))
  · rw [Tally.total_eq_sum, hregistry, herrors]
    exact (hsum .integrationErrors _).trans (lerrors.trans (Nat.zero_add _).symm)

/-- A send that fails, an outage that begins, and a close that overtakes another send. -/
def eventful : List Happening :=
  mixed.map .step ++ [.change (.table []) (some "down") .ready Webhook.unreachable] ++
    (cutShort.drop mixed.length).map .step

theorem counters_agree_eventful :
    Dispatch.Distinct (stepsOf eventful) ∧
      (lives (start (.new .atMostOnce ⟨5⟩) none (.table []) Webhook.unreachable)
        eventful).dispatcher.sends = [] ∧
      (∀ k a, .step (.registry (.begin k a)) ∉ eventful) ∧
      Agreed (lives (start (.new .atMostOnce ⟨5⟩) none (.table []) Webhook.unreachable) eventful) ∧
      ∃ cached, Served
        (lives (start (.new .atMostOnce ⟨5⟩) none (.table []) Webhook.unreachable) eventful)
        cached := by
  have hd : Dispatch.Distinct (stepsOf eventful) := by decide
  have hidle : (lives (start (.new .atMostOnce ⟨5⟩) none (.table []) Webhook.unreachable)
      eventful).dispatcher.sends = [] := rfl
  have hown : ∀ k a, .step (.registry (.begin k a)) ∉ eventful := by
    simp [eventful, mixed, cutShort]
  exact ⟨hd, hidle, hown, counters_agree _ none _ _ eventful hd hidle
    fun k a h => absurd h (hown k a)⟩

end Uplink.Service
