import Uplink.Proofs.Dispatch.Script

namespace Uplink.Dispatch

open Backend Broker Notification Registry Time

variable {d : Dispatcher} {k : Nat} {n : Encoded} {s : Step} {a : Act} {acts : List Act}
  {own : List Nat} {S : Setting} {before : List Step} {broker : BrokerBackend}
  {ttl : Option Duration} {w : World} {lookup : Int64 → Lookup}

/-- An act by which sends begin or go on. -/
def Act.ofSends : Act → Bool
  | .send _ _ | .load _ | .wake _ | .publish _ | .post _ _ => true
  | _ => false

/-- The send that begins with an act. -/
def Act.begun? : Act → Option (Nat × Encoded)
  | .send k n => some (k, n)
  | _ => none

/-- The sends that begin, in order. -/
def begins (acts : List Act) : List (Nat × Encoded) := acts.filterMap Act.begun?

/-- The answer to the lookup of a call in flight. -/
def answers (lookup : Int64 → Lookup) (d : Dispatcher) (call : Nat) : Option Lookup :=
  (d.registry.call? call).map fun c => lookup c.application

namespace World

variable (w : World) (lookup : Int64 → Lookup)

def play (d : Dispatcher) (a : Act) : Outcome := w.act (answers lookup d) d a

def plays (d : Dispatcher) (acts : List Act) : Outcome := collect (w.play lookup) d acts

/-- The steps that acts are, one after the other. -/
def steps (d : Dispatcher) : List Act → List Step
  | [] => []
  | a :: acts => (w.step? (answers lookup d) d a).toList ++ steps (w.play lookup d a).1 acts

end World

/-- A dispatcher is in its setting and in order for a step of its sends. -/
structure Lively (S : Setting) (own : List Nat) (d : Dispatcher) (s : Step) : Prop where
  holds : S.Holds d
  ready : Ready own d s
  sound : ∀ t, s.inner? d = some t → Sound d.registry t
  numbers : (d.registry.calls.map (·.number)).Nodup
  /-- The calls in flight are those of sends. -/
  calls : ∀ c ∈ d.registry.calls, c.number ∈ own ∧
    ∀ u, d.send? c.number = some u → u.notification.applicationId = c.application
  unreleased : (step d s).1.registry.closed = false → (step d s).1.registry.released = []

/-- Where the registry stays open, webhooks that are begun with a step are open. -/
theorem Lively.open {t : Registry.Step} (h : Lively S own d s) (hi : s.inner? d = some t)
    (ht : t ≠ .close) (ho : S.shut = false) (g : Hook) :
    ((Registry.step d.registry t).1.backend g).closed = false := by
  have hopen := step_open (h.holds.shut.trans ho) ht
  have hreleased := h.unreleased
  rw [(step_of_inner_some hi).1] at hreleased
  rw [Registry.backend, hreleased hopen]
  rfl

theorem Lively.registry_left {t : Registry.Step} (h : Lively S own d (.registry t))
    (ht : Truthful S.lookup d.registry t) (hb : t.begun? = none) (hc : t ≠ .close) :
    (said (step d (.registry t)).2 : Multiset Output) + S.left (step d (.registry t)).1 =
      S.left d := by
  have htraffic := h.ready.orderly t rfl
  refine follow_left (d := { d with registry := (Registry.step d.registry t).1 })
    h.ready.registry_attentive (fun k hk => ?_) h.holds.broker (fun ho => h.open rfl hc ho)
    fun k result hm u hu => ?_
  · by_contra hown
    refine (htraffic.absent (fun hk' => hown ?_) (by simp [hb])).1 hk
    obtain ⟨c, hc, rfl⟩ := List.mem_map.mp hk'
    exact (h.calls c hc).1
  · have hcomes := h.holds.steady.returned (h.sound t rfl).keyed ht
      (a := u.notification.applicationId) (fun b hs => by rw [hs] at hb; cases hb)
      (fun c hc hk => ?_) hm
    · rwa [h.holds.shut] at hcomes
    · exact ((h.calls c hc).2 u (hk ▸ hu)).symm

theorem Lively.begin_left (h : Lively S own d (.begin k n)) (hk : k ∈ own) :
    (said (step d (.begin k n)).2 : Multiset Output) + S.left (step d (.begin k n)).1 =
      S.left d + S.whole k n := by
  cases hc : d.closed with
  | true =>
    have hwhole : S.whole k n = [.sent k (.error .closed)] := by
      rw [Setting.whole, if_pos (h.holds.closed ▸ hc)]
    simp only [step, begin, hc, ↓reduceIte, hwhole]
    exact add_comm ..
  | false =>
    have hi : (Step.begin k n).inner? d = some (.begin k n.applicationId) := by
      simp [Step.inner?, hc]
    have hfollow : (said (registryStep (entered d k n) (.begin k n.applicationId)).2 :
        Multiset Output) + S.left (registryStep (entered d k n) (.begin k n.applicationId)).1 =
          S.left (entered d k n) := by
      refine follow_left (d := { entered d k n with registry := _ }) (h.ready.begin_attentive hc)
        (fun j hj => ?_) h.holds.broker (fun ho => h.open hi (by simp) ho)
        fun j result hm u hu => ?_
      · by_cases hjk : j = k
        · exact hjk ▸ hk
        · by_contra hown
          refine ((h.ready.orderly _ hi).absent (fun hk' => hown ?_) ?_).1 hj
          · obtain ⟨c, hc, rfl⟩ := List.mem_map.mp hk'
            exact (h.calls c hc).1
          · simpa [Registry.Step.begun?] using Ne.symm hjk
      · have hu' := (send?_entered d j k n).symm.trans hu
        have hcomes := h.holds.steady.returned (h.sound _ hi).keyed (s := .begin k n.applicationId)
          (a := u.notification.applicationId) (fun _ _ he => by cases he) (fun b hs => ?_)
          (fun c hc hk => ?_) hm
        · rwa [h.holds.shut] at hcomes
        · cases hs
          have hnone : d.send? k = none := by
            refine List.find?_eq_none.mpr fun v hv he => ?_
            rw [beq_iff_eq] at he
            exact h.ready.fresh k n rfl (he ▸ List.mem_map_of_mem hv)
          rw [hnone, Option.none_or, if_pos rfl] at hu'
          cases hu'
          rfl
        · by_cases hjk : k = j
          · exact absurd (hjk ▸ hk ▸ List.mem_map_of_mem hc) ((h.sound _ hi).fresh k rfl)
          · rw [if_neg hjk, Option.or_none] at hu'
            exact ((h.calls c hc).2 u (hk ▸ hu')).symm
    have hwhole : S.whole k n = .counted (.notification n.event) :: S.script k n := by
      rw [Setting.whole, if_neg (by simp [← h.holds.closed, hc])]
    have hentered : S.left (entered d k n) = S.left d + S.script k n := by
      simp only [Setting.left, entered, List.flatMap_append, ← Multiset.coe_add]
      simp [Setting.rest]
    rw [step, begin_entered hc, hwhole]
    have hsaid : ∀ o, (said (.counted (.notification n.event) :: o) : Multiset Output) =
        ([.counted (.notification n.event)] : List Output) + (said o : Multiset Output) :=
      fun _ => rfl
    have hcons : (Output.counted (.notification n.event) :: S.script k n : Multiset Output) =
        ([.counted (.notification n.event)] : List Output) + (S.script k n : Multiset Output) := rfl
    rw [hsaid, hcons, add_assoc, hfollow, hentered]
    exact add_left_comm ..

/-- The call whose lookup is answered. -/
theorem answers_eq_some {found : Lookup} (h : answers lookup d k = some found) :
    ∃ c ∈ d.registry.calls, c.number = k ∧ found = lookup c.application := by
  obtain ⟨c, hc, rfl⟩ := Option.map_eq_some_iff.mp h
  obtain ⟨hm, hk⟩ := call?_eq_some hc
  exact ⟨c, hm, hk, rfl⟩

theorem truthful_answer (hn : (d.registry.calls.map (·.number)).Nodup) {found : Lookup}
    (h : answers lookup d k = some found) : Truthful lookup d.registry (.answer k found) := by
  obtain ⟨c, hc, hk, rfl⟩ := answers_eq_some h
  rintro _ _ ⟨⟩ b hb hbk
  rw [List.inj_on_of_nodup_map hn hb hc (hbk.trans hk.symm)]

/-- What an act adds to all that there is to be said is the whole of the send that begins with it.
-/
theorem Lively.left (h : Lively S own d s) (ha : a.ofSends = true)
    (hs : S.world.step? (answers S.lookup d) d a = some s)
    (hown : ∀ k n, a = .send k n → k ∈ own) :
    (said (step d s).2 : Multiset Output) + S.left (step d s).1 =
      S.left d + (a.begun?.toList.flatMap fun x => S.whole x.1 x.2 : List Output) := by
  have stays : ∀ {m : Multiset Output}, m = S.left d → m = S.left d + (([] : List Output)) := by
    rintro m rfl
    exact (add_zero _).symm
  cases a with
  | send k n =>
    cases hs
    have hbegin := h.begin_left (hown k n rfl)
    simpa [Act.begun?] using hbegin
  | load k =>
    obtain ⟨found, hf, rfl⟩ := Option.map_eq_some_iff.mp hs
    exact stays (h.registry_left (truthful_answer h.numbers hf) rfl (by simp))
  | wake k =>
    cases hs
    refine stays (h.registry_left (fun _ _ he => ?_) rfl (by simp))
    cases he
  | publish k =>
    obtain ⟨u, hu, rfl⟩ := Option.map_eq_some_iff.mp hs
    exact stays (brokerAnswer_left h.holds h.ready.apart hu)
  | post k place =>
    obtain ⟨x, hx, rfl⟩ := Option.map_eq_some_iff.mp hs
    obtain ⟨u, hu, hr⟩ := Option.bind_eq_some_iff.mp hx
    exact stays (hookAnswer_left h.ready.apart hu (fun before b attempts since hp =>
      h.ready.hooks k u before b attempts since hu hp) hr)
  | _ => cases ha

/-- By the acts of sends nothing is closed, and only calls go on, whose lookups are answered as they
are. -/
theorem step?_ofSends (hn : (d.registry.calls.map (·.number)).Nodup) (ha : a.ofSends = true)
    (hs : w.step? (answers lookup d) d a = some s) :
    (∀ c, s ≠ .beginClose c) ∧
      ∀ t, s.inner? d = some t → t.ofCall = true ∧ Truthful lookup d.registry t := by
  have vacuous : ∀ {t : Registry.Step}, (∀ j found, t ≠ .answer j found) →
      Truthful lookup d.registry t := fun h j found he => absurd he (h j found)
  cases a with
  | send k n =>
    cases hs
    refine ⟨by simp, fun t ht => ?_⟩
    simp only [Step.inner?] at ht
    split at ht <;> cases ht
    exact ⟨rfl, vacuous (by simp)⟩
  | load k =>
    obtain ⟨found, hf, rfl⟩ := Option.map_eq_some_iff.mp hs
    refine ⟨by simp, fun t ht => ?_⟩
    cases ht
    exact ⟨rfl, truthful_answer hn hf⟩
  | wake k =>
    cases hs
    refine ⟨by simp, fun t ht => ?_⟩
    cases ht
    exact ⟨rfl, vacuous (by simp)⟩
  | publish k =>
    obtain ⟨u, -, rfl⟩ := Option.map_eq_some_iff.mp hs
    refine ⟨by simp, fun t ht => ?_⟩
    cases ht
  | post k place =>
    obtain ⟨x, -, rfl⟩ := Option.map_eq_some_iff.mp hs
    refine ⟨by simp, fun t ht => ?_⟩
    cases ht
  | _ => cases ha

theorem step_unclosed (h : ∀ c, s ≠ .beginClose c) : (step d s).1.closed = d.closed := by
  cases s with
  | begin j m => exact (begin_unclosing d j m).closed
  | registry t => exact (registryStep_unclosing d t).closed
  | brokerAnswer j a => exact (brokerAnswer_answered d j a).unclosing.closed
  | hookAnswer j hook r => exact (hookAnswer_answered d j hook r).unclosing.closed
  | beginClose c => exact absurd rfl (h c)
  | closeAnswer a =>
    simp only [step, closeAnswer]
    split <;> rfl

theorem step_underway (h : ∀ u ∈ d.sends, S.Underway u) (hb : d.broker = S.broker)
    (hs : ∀ c, s ≠ .beginClose c) : ∀ u ∈ (step d s).1.sends, S.Underway u := by
  cases s with
  | begin k n =>
    cases hc : d.closed with
    | true =>
      simp only [step, begin, hc, ↓reduceIte]
      exact h
    | false =>
      rw [step, begin_entered hc]
      refine registryStep_underway (d := entered d k n) (fun u hu => ?_) hb _
      rcases List.mem_append.mp hu with hu | hu
      · exact h u hu
      · obtain rfl := List.mem_singleton.mp hu
        exact ⟨rfl, by simp, by simp⟩
  | registry t => exact registryStep_underway h hb t
  | brokerAnswer k a => exact (brokerAnswer_answered d k a).underway h
  | hookAnswer k hook r => exact (hookAnswer_answered d k hook r).underway h
  | beginClose c => exact absurd rfl (hs c)
  | closeAnswer a =>
    simp only [step, closeAnswer]
    split <;> exact h

theorem Lively.stays (h : Lively S own d s) (ha : a.ofSends = true)
    (hs : S.world.step? (answers S.lookup d) d a = some s) : S.Holds (step d s).1 := by
  obtain ⟨hclose, hinner⟩ := step?_ofSends h.numbers ha hs
  have hbroker : (step d s).1.broker = d.broker := by
    refine (step_broker d s).resolve_right ?_
    rintro ⟨⟨c, hc⟩, -⟩
    exact hclose c hc
  refine ⟨hbroker.trans h.holds.broker, (step_unclosed hclose).trans h.holds.closed, ?_, ?_,
    h.unreleased, step_underway h.holds.underway h.holds.broker hclose⟩
  · rw [← h.holds.shut]
    cases hi : s.inner? d with
    | none => rw [(step_of_inner_none hi).1]
    | some t =>
      rw [(step_of_inner_some hi).1]
      cases hc : d.registry.closed with
      | true => exact Registry.step_closed hc t
      | false => exact step_open hc (gentle_of_call (hinner t hi).1 0).2.2
  · cases hi : s.inner? d with
    | none =>
      rw [(step_of_inner_none hi).1]
      exact h.holds.steady
    | some t =>
      rw [(step_of_inner_some hi).1]
      exact h.holds.steady.step (h.sound t hi) (hinner t hi).2 (hinner t hi).1

theorem act_of_none {found : Nat → Option Lookup} (h : w.step? found d a = none) :
    w.act found d a = (d, []) := by
  simp only [World.act, h]

theorem act_of_some {found : Nat → Option Lookup} (h : w.step? found d a = some s) :
    w.act found d a = step d s := by
  simp only [World.act, h]

theorem plays_snoc (w : World) (lookup : Int64 → Lookup) (d : Dispatcher) (acts : List Act)
    (a : Act) :
    w.plays lookup d (acts ++ [a]) =
      ((w.play lookup (w.plays lookup d acts).1 a).1,
        (w.plays lookup d acts).2 ++ (w.play lookup (w.plays lookup d acts).1 a).2) :=
  collect_snoc ..

theorem plays_cons (w : World) (lookup : Int64 → Lookup) (d : Dispatcher) (a : Act)
    (acts : List Act) :
    w.plays lookup d (a :: acts) =
      ((w.plays lookup (w.play lookup d a).1 acts).1,
        (w.play lookup d a).2 ++ (w.plays lookup (w.play lookup d a).1 acts).2) :=
  collect_cons ..

theorem steps_snoc (w : World) (lookup : Int64 → Lookup) (d : Dispatcher) (acts : List Act)
    (a : Act) :
    w.steps lookup d (acts ++ [a]) = w.steps lookup d acts ++
      (w.step? (answers lookup (w.plays lookup d acts).1) (w.plays lookup d acts).1 a).toList := by
  induction acts generalizing d with
  | nil => simp [World.steps, World.plays]
  | cons b acts ih =>
    rw [List.cons_append, World.steps, ih, World.steps, List.append_assoc, plays_cons]

/-- Acts are run step by step. -/
theorem plays_run (w : World) (lookup : Int64 → Lookup) (d : Dispatcher) (acts : List Act) :
    w.plays lookup d acts = run d (w.steps lookup d acts) := by
  induction acts using List.reverseRecOn with
  | nil => rfl
  | append_singleton acts a ih =>
    rw [plays_snoc, steps_snoc, World.play]
    cases hs : w.step? (answers lookup (w.plays lookup d acts).1) (w.plays lookup d acts).1 a with
    | none =>
      rw [act_of_none hs, Option.toList_none, List.append_nil, List.append_nil]
      exact ih
    | some s => rw [act_of_some hs, Option.toList_some, run_snoc, ← ih]

/-- Sends begin with the acts that are said to begin them. -/
theorem step?_begin {found : Nat → Option Lookup} (hs : w.step? found d a = some s) :
    s = .begin k n ↔ a = .send k n := by
  cases a with
  | send j m =>
    cases hs
    simp
  | load | publish | post =>
    obtain ⟨_, -, rfl⟩ := Option.map_eq_some_iff.mp hs
    simp
  | _ =>
    cases hs
    simp

/-- Only sends begin with the acts of sends. -/
theorem step?_begun (ha : a.ofSends = true) {found : Nat → Option Lookup} :
    (w.step? found d a).toList.filterMap Step.begun? = a.begun?.toList.map Prod.fst := by
  cases a with
  | send k n | wake k => rfl
  | load k | publish k | post k place =>
    simp only [World.step?, Act.begun?, Option.toList_none, List.map_nil]
    refine List.filterMap_eq_nil_iff.mpr fun s hs => ?_
    obtain ⟨_, -, rfl⟩ := Option.map_eq_some_iff.mp (Option.mem_toList.mp hs)
    rfl
  | _ => cases ha

theorem begins_cons (a : Act) (acts : List Act) :
    begins (a :: acts) = a.begun?.toList ++ begins acts := by
  cases h : a.begun? <;> simp [begins, h]

theorem begins_append (acts more : List Act) : begins (acts ++ more) = begins acts ++ begins more :=
  List.filterMap_append

theorem steps_begun (w : World) (lookup : Int64 → Lookup) (d : Dispatcher)
    (ha : ∀ a ∈ acts, a.ofSends = true) :
    (w.steps lookup d acts).filterMap Step.begun? = (begins acts).map Prod.fst := by
  induction acts generalizing d with
  | nil => rfl
  | cons a acts ih =>
    obtain ⟨hfirst, hrest⟩ := List.forall_mem_cons.mp ha
    rw [World.steps, List.filterMap_append, ih _ hrest, step?_begun hfirst, begins_cons,
      List.map_append]

theorem mem_begins : (k, n) ∈ begins acts ↔ .send k n ∈ acts := by
  simp only [begins, List.mem_filterMap]
  constructor
  · rintro ⟨a, ha, hk⟩
    cases a with
    | send j m =>
      cases hk
      exact ha
    | _ => cases hk
  · exact fun h => ⟨_, h, rfl⟩

theorem begin_mem_steps (w : World) (lookup : Int64 → Lookup) (d : Dispatcher) (acts : List Act) :
    .begin k n ∈ w.steps lookup d acts ↔ (k, n) ∈ begins acts := by
  rw [mem_begins]
  induction acts generalizing d with
  | nil => simp [World.steps]
  | cons a acts ih =>
    rw [World.steps, List.mem_append, ih, List.mem_cons, Option.mem_toList]
    refine or_congr_left ?_
    constructor
    · exact fun hs => ((step?_begin hs).mp rfl).symm
    · rintro rfl
      rfl

/-- The steps by which sends begin. -/
def openings (sends : List (Nat × Encoded)) : List Step := sends.map fun x => .begin x.1 x.2

theorem openings_begun (sends : List (Nat × Encoded)) :
    (openings sends).filterMap Step.begun? = sends.map Prod.fst := by
  rw [openings, List.filterMap_map]
  exact congrFun List.filterMap_eq_map' _

/-- A dispatcher is at rest after these steps, and then only sends begin and go on, under numbers
that nothing has had. -/
structure Together (broker : BrokerBackend) (ttl : Option Duration) (before : List Step)
    (acts : List Act) : Prop where
  idle : (run (fresh broker ttl) before).1.sends = []
  calm : (run (fresh broker ttl) before).1.registry.calls = []
  only : ∀ a ∈ acts, a.ofSends = true
  distinct : Distinct (before ++ openings (begins acts))

theorem Together.distinct_steps (h : Together broker ttl before acts) (w : World)
    (lookup : Int64 → Lookup) :
    Distinct (before ++ w.steps lookup (run (fresh broker ttl) before).1 acts) := by
  have hd := h.distinct
  unfold Distinct at hd ⊢
  rwa [List.filterMap_append, steps_begun w lookup _ h.only, ← openings_begun,
    ← List.filterMap_append]

theorem Together.prefix {more : List Act} (h : Together broker ttl before (acts ++ more)) :
    Together broker ttl before acts := by
  obtain ⟨hidle, hcalm, honly, hd⟩ := h
  rw [begins_append, openings, List.map_append, ← List.append_assoc] at hd
  exact ⟨hidle, hcalm, fun a ha => honly a (List.mem_append_left _ ha), hd.append_left⟩

/-- The setting in which the sends begin. -/
def setting (d : Dispatcher) (w : World) (lookup settled : Int64 → Lookup) : Setting :=
  ⟨w, lookup, settled, d.broker, d.closed, d.registry.closed⟩

/-- The calls in flight are those of the sends that have begun. -/
def Theirs (sends : List (Nat × Encoded)) (d : Dispatcher) : Prop :=
  ∀ c ∈ d.registry.calls, ∃ n, (c.number, n) ∈ sends ∧ n.applicationId = c.application

/-- A send in flight has the notification that it began with. -/
theorem run_notification {u : Send} {steps : List Step} (hd : Distinct steps)
    (hk : .begin k n ∈ steps) (hu : (run (fresh broker ttl) steps).1.send? k = some u) :
    u.notification = n := by
  rcases (run_story broker ttl hd hk).in_flight hu with rfl | ⟨result, since, rfl, -⟩ <;> rfl

/-- A run that has brought a dispatcher into its setting has it in order for the next step. -/
theorem run_lively {steps : List Step} (hd : Distinct (steps ++ [s]))
    (hS : S.Holds (run (fresh broker ttl) steps).1)
    (hcalls : ∀ c ∈ (run (fresh broker ttl) steps).1.registry.calls,
      ∃ n, .begin c.number n ∈ steps ∧ n.applicationId = c.application) :
    Lively S (sendsOf (steps ++ [s])) (run (fresh broker ttl) steps).1 s where
  holds := hS
  ready := run_ready broker ttl hd
  sound t ht := by
    have hi := hd.inner (fresh broker ttl)
    rw [inner_snoc, ht] at hi
    rw [run_registry]
    exact run_sound ttl hi
  numbers := by
    have hi := hd.append_left.inner (fresh broker ttl)
    rw [run_registry]
    exact (run_numbered ttl hi).calls_nodup hi
  calls c hc := by
    obtain ⟨n, hn, ha⟩ := hcalls c hc
    refine ⟨mem_sendsOf.mpr ⟨n, List.mem_append_left _ hn⟩, fun u hu => ?_⟩
    rw [run_notification hd.append_left hn hu, ha]
  unreleased ho := by
    have hsnoc : (step (run (fresh broker ttl) steps).1 s).1 =
        (run (fresh broker ttl) (steps ++ [s])).1 := by rw [run_snoc]
    rw [hsnoc, run_registry] at ho ⊢
    exact run_unreleased ttl _ ho

/-- The calls in flight stay those of the sends that have begun. -/
theorem Theirs.step {sends : List (Nat × Encoded)} (h : Theirs sends d) (ha : a.ofSends = true)
    (hs : w.step? (answers lookup d) d a = some s) :
    Theirs (sends ++ a.begun?.toList) (step d s).1 := by
  intro c hc
  have stays : c ∈ d.registry.calls → ∃ n, (c.number, n) ∈ sends ++ a.begun?.toList ∧
      n.applicationId = c.application := by
    intro hm
    obtain ⟨n, hn, ha⟩ := h c hm
    exact ⟨n, List.mem_append_left _ hn, ha⟩
  cases hi : s.inner? d with
  | none =>
    rw [(step_of_inner_none hi).1] at hc
    exact stays hc
  | some t =>
    rw [(step_of_inner_some hi).1] at hc
    rcases (step_evolves d.registry t).called c hc with ⟨b, hb, hn, happ, -⟩ | ⟨rfl, -, -⟩
    · rw [← hn, ← happ]
      obtain ⟨n, hm, ha⟩ := h b hb
      exact ⟨n, List.mem_append_left _ hm, ha⟩
    · cases a with
      | send k n =>
        cases hs
        simp only [Step.inner?] at hi
        split at hi
        · cases hi
        · rw [Option.some.injEq, Registry.Step.begin.injEq] at hi
          obtain ⟨rfl, happ⟩ := hi
          exact ⟨n, by simp [Act.begun?], happ⟩
      | wake =>
        cases hs
        cases hi
      | load | publish | post =>
        obtain ⟨_, -, rfl⟩ := Option.map_eq_some_iff.mp hs
        cases hi
      | _ => cases ha

/-- Steps, and then acts, are run step by step. -/
theorem run_before (w : World) (lookup : Int64 → Lookup) (before : List Step) (acts : List Act) :
    run d (before ++ w.steps lookup (run d before).1 acts) =
      ((w.plays lookup (run d before).1 acts).1,
        (run d before).2 ++ (w.plays lookup (run d before).1 acts).2) := by
  rw [plays_run]
  exact collect_append step d before _

theorem plays_before (w : World) (lookup : Int64 → Lookup) (before : List Step) (acts : List Act) :
    (w.plays lookup (run d before).1 acts).1 =
      (run d (before ++ w.steps lookup (run d before).1 acts)).1 := by
  rw [run_before]

/-- Sends that begin together are in order for each of their acts. -/
theorem Together.lively (h : Together broker ttl before (acts ++ [a])) (w : World)
    (hd : d = (w.plays lookup (run (fresh broker ttl) before).1 acts).1) (hS : S.Holds d)
    (htheirs : Theirs (begins acts) d) (hs : w.step? (answers lookup d) d a = some s) :
    ∃ own, Lively S own d s ∧ ∀ k n, a = .send k n → k ∈ own := by
  subst hd
  have hd := h.distinct_steps w lookup
  rw [steps_snoc, hs, Option.toList_some, ← List.append_assoc] at hd
  refine ⟨sendsOf (before ++ w.steps lookup (run (fresh broker ttl) before).1 acts ++ [s]), ?_, ?_⟩
  · rw [plays_before] at hS htheirs ⊢
    refine run_lively hd hS fun c hc => ?_
    obtain ⟨n, hn, happ⟩ := htheirs c hc
    exact ⟨n, List.mem_append_right _ ((begin_mem_steps w lookup _ acts).mpr hn), happ⟩
  · intro k n hk
    rw [(step?_begin hs).mpr hk]
    exact mem_sendsOf.mpr ⟨n, by simp⟩

/-- However sends that begin together go on, they stay in their setting, and what has come out and
what is still to come make up the whole of them. -/
theorem plays_whole {settled : Int64 → Lookup} (h : Together broker ttl before acts) (w : World)
    (hsettled : Steady lookup settled (run (fresh broker ttl) before).1.registry) :
    let S := setting (run (fresh broker ttl) before).1 w lookup settled
    let x := w.plays lookup (run (fresh broker ttl) before).1 acts
    S.Holds x.1 ∧ Theirs (begins acts) x.1 ∧
      (said x.2 : Multiset Output) + S.left x.1 =
        ((begins acts).flatMap fun x => S.whole x.1 x.2 : List Output) := by
  intro S x
  induction acts using List.reverseRecOn with
  | nil =>
    refine ⟨⟨rfl, rfl, rfl, hsettled, fun ho => ?_, ?_⟩, ?_, ?_⟩
    · have hreg := run_registry broker ttl before
      change (run (fresh broker ttl) before).1.registry.closed = false at ho
      change (run (fresh broker ttl) before).1.registry.released = []
      rw [hreg] at ho ⊢
      exact run_unreleased ttl _ ho
    · change ∀ s ∈ (run (fresh broker ttl) before).1.sends, _
      simp [h.idle]
    · intro c hc
      change c ∈ (run (fresh broker ttl) before).1.registry.calls at hc
      simp [h.calm] at hc
    · change _ + ((run (fresh broker ttl) before).1.sends.flatMap S.rest : Multiset Output) = _
      rw [h.idle]
      rfl
  | append_singleton acts a ih =>
    obtain ⟨hS, htheirs, hwhole⟩ := ih h.prefix
    have ha : a.ofSends = true := h.only a (by simp)
    have hbegins : begins (acts ++ [a]) = begins acts ++ a.begun?.toList := by
      rw [begins_append, begins_cons]
      exact congrArg _ (List.append_nil _)
    rw [hbegins]
    simp only [x, plays_snoc, World.play]
    generalize hd : (w.plays lookup (run (fresh broker ttl) before).1 acts).1 = d at *
    cases hs : w.step? (answers lookup d) d a with
    | none =>
      have hnone : a.begun?.toList = [] := by
        have hbegun : (w.step? (answers lookup d) d a).toList.filterMap Step.begun? = _ :=
          step?_begun ha
        rw [hs] at hbegun
        exact List.map_eq_nil_iff.mp hbegun.symm
      rw [act_of_none hs, hnone, List.append_nil, List.append_nil]
      exact ⟨hS, htheirs, hwhole⟩
    | some s =>
      obtain ⟨own, hlive, hown⟩ := h.lively w hd.symm hS htheirs hs
      rw [act_of_some hs]
      refine ⟨hlive.stays ha hs, htheirs.step ha hs, ?_⟩
      rw [List.flatMap_append, ← Multiset.coe_add, ← hwhole, said_append, ← Multiset.coe_add,
        add_assoc, hlive.left ha hs hown, add_assoc]

end Uplink.Dispatch
