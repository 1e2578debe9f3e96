import Uplink.Proofs.Dispatch.Accounts
import Uplink.Proofs.Dispatch.Interleaving
import Uplink.Proofs.Registry.Lines

namespace Uplink.Dispatch

open Backend Broker Notification Registry Time

variable {d : Dispatcher} {k : Nat} {n : Encoded} {o : List Output} {s : Send} {a : Act}
  {acts : List Act} {S : Setting} {before steps : List Step} {broker : BrokerBackend}
  {ttl : Option Duration} {w : World} {lookup settled : Int64 → Lookup}

/-- The call of a send that waits for its application is in flight. -/
theorem run_waiting (hd : Distinct steps) (hk : .begin k n ∈ steps)
    (hw : (run (fresh broker ttl) steps).1.send? k = some ⟨k, n, .resolving⟩) :
    k ∈ (run (fresh broker ttl) steps).1.registry.calls.map (·.number) := by
  induction steps using List.reverseRecOn with
  | nil => cases hk
  | append_singleton steps s ih =>
    have ho : Orderly (run (fresh broker ttl) steps).1 s := run_orderly hd
    have hstory := run_story broker ttl hd hk
    cases hstory with
    | refused gone =>
      rw [gone] at hw
      cases hw
    | delivering _ _ _ fan =>
      obtain ⟨since, he⟩ := fan.in_flight hw
      cases he
    | resolving _ quiet unresolved =>
      rw [run_snoc] at quiet unresolved hw ⊢
      have hquiet : ∀ result, .resolved k result ∉ (step (run (fresh broker ttl) steps).1 s).2 :=
        fun result hm => unresolved result (List.mem_append_right _ hm)
      rcases List.mem_append.mp hk with hk | hk
      · -- it waited before, as it was neither refused nor resolved
        refine step_in_flight ho (.inl (ih hd.append_left hk ?_)) hquiet
        cases run_story broker ttl hd.append_left hk with
        | refused _ _ _ _ _ ended =>
          have hres := quiet.results
          rw [results_append, ended] at hres
          cases hres
        | resolving waits => exact waits
        | delivering result _ _ _ _ out =>
          exact absurd (List.mem_append_left _ out) (unresolved result)
      · obtain rfl := List.mem_singleton.mp hk
        refine step_in_flight ho (.inr ⟨rfl, ?_⟩) hquiet
        have hnone := (run_absent broker ttl hd.append_left (hd.fresh (s := .begin k n) rfl)).1
        cases hc : (run (fresh broker ttl) steps).1.closed with
        | false => exact ⟨.begin k n.applicationId, by simp [Step.inner?, hc]⟩
        | true =>
          simp only [step, begin, hc, ↓reduceIte] at hw
          rw [hnone] at hw
          cases hw

theorem said_ended_ne (k : Nat) (t : Target) (event : Event) (x : Delivery) (o : List Output) :
    0 < (said (ended k t event x ++ o)).length := by
  rw [said_append, said_ended, ended]
  simp

/-- The publisher's answer says something of a send that waits for it. -/
theorem brokerAnswer_said {known : List BackendFailure} {hooks : List HookAttempt}
    {since : Duration} (hs : d.send? k = some s)
    (hp : s.phase = .delivering known none hooks since) (a : Answer) :
    0 < (said (brokerAnswer d k a).2).length := by
  unfold brokerAnswer
  simp only [hs, hp]
  exact said_ended_ne ..

theorem hookAnswer_said {known : List BackendFailure} {b : Option Delivery}
    {hooks : List HookAttempt} {since : Duration} {x : HookAttempt} (hs : d.send? k = some s)
    (hp : s.phase = .delivering known b hooks since) (hd : (hooks.map (·.hook.number)).Nodup)
    (hx : x ∈ hooks) (hnone : x.outcome = none)
    (hr : (x.hook.endpoints.request s.notification).isSome)
    (r : Except Webhook.RequestError Nat) :
    0 < (said (hookAnswer d k x.hook.number r).2).length := by
  unfold hookAnswer
  simp only [hs, hp, find?_attempt hd hx, hnone, Option.isNone_none, ↓reduceIte]
  split
  · exact said_ended_ne ..
  · rename_i hurl
    rw [Webhook.Endpoints.request, hurl] at hr
    cases hr

/-- What there is to do for the calls and to say of the sends. -/
def remaining (S : Setting) (d : Dispatcher) : Nat := pending d.registry + (S.left d).card

/-- With an act by which no send begins, what is said is no longer to be said. -/
theorem Lively.less {own : List Nat} {t : Step} (h : Lively S own d t) (ha : a.ofSends = true)
    (hb : a.begun? = none) (ht : S.world.step? (answers S.lookup d) d a = some t) :
    (said (step d t).2).length + (S.left (step d t).1).card = (S.left d).card := by
  have hleft := h.left ha ht fun k n he => by
    rw [he] at hb
    cases hb
  rw [hb] at hleft
  have hcard := congrArg Multiset.card hleft
  simpa using hcard

/-- The next call that can go on does so with an act of sends. -/
theorem next_act (hn : (d.registry.calls.map (·.number)).Nodup) {t : Registry.Step}
    (ht : next? d.registry lookup = some t) :
    ∃ a : Act, a.ofSends = true ∧ a.begun? = none ∧
      w.step? (answers lookup d) d a = some (.registry t) := by
  obtain ⟨c, hc, ⟨-, rfl⟩ | ⟨-, rfl, -⟩⟩ := next?_eq_some ht
  · refine ⟨.load c.number, rfl, rfl, ?_⟩
    simp [World.step?, answers, call?_of_mem hn hc]
  · exact ⟨.wake c.number, rfl, rfl, rfl⟩

/-- Where not all outcomes are known, one is not. -/
theorem exists_open {hooks : List HookAttempt} (h : outcomes? hooks = none) :
    ∃ x ∈ hooks, x.outcome = none := by
  induction hooks with
  | nil => cases h
  | cons a hooks ih =>
    cases ho : a.outcome with
    | none => exact ⟨a, List.mem_cons_self, ho⟩
    | some r =>
      have hrest : outcomes? hooks = none := by
        cases hk : outcomes? hooks with
        | none => rfl
        | some known =>
          rw [outcomes?] at h hk
          simp [List.mapM_cons, ho, hk] at h
      obtain ⟨x, hx, hnone⟩ := ih hrest
      exact ⟨x, List.mem_cons_of_mem _ hx, hnone⟩

/-- A send whose deliveries are under way goes on when one of those it waits for is answered. -/
theorem answer_act (lookup : Int64 → Lookup) (hs : d.send? k = some s) (hu : S.Underway s)
    (hp : s.phase ≠ .resolving)
    (hd : ∀ known b hooks since, s.phase = .delivering known b hooks since →
      (hooks.map (·.hook.number)).Nodup) :
    ∃ (a : Act) (t : Step), a.ofSends = true ∧ a.begun? = none ∧
      S.world.step? (answers lookup d) d a = some t ∧ (step d t).1.registry = d.registry ∧
      0 < (said (step d t).2).length := by
  cases hphase : s.phase with
  | resolving => exact absurd hphase hp
  | delivering known b hooks since =>
    cases b with
    | none =>
      refine ⟨.publish k, .brokerAnswer k (S.world.publish (d.broker.message s.notification)), rfl,
        rfl, by simp [World.step?, hs], (brokerAnswer_answered d k _).touches.registry, ?_⟩
      exact brokerAnswer_said hs hphase _
    | some r =>
      have hconcluded := hu.unconcluded
      rw [hphase] at hconcluded
      obtain ⟨x, hx, hnone⟩ := exists_open (Option.map_eq_none_iff.mp hconcluded)
      have hr := hu.hooks _ _ _ _ hphase x hx hnone
      obtain ⟨i, hi⟩ := List.mem_iff_getElem?.mp hx
      obtain ⟨q, hq⟩ := Option.isSome_iff_exists.mp hr
      refine ⟨.post k i, .hookAnswer k x.hook.number (S.world.post q), rfl, rfl, ?_,
        (hookAnswer_answered d k _ _).touches.registry, ?_⟩
      · simp [World.step?, hs, Send.asked?, hphase, hi, hq]
      · exact hookAnswer_said hs hphase (hd _ _ _ _ hphase) hx hnone hr _

theorem Together.snoc (h : Together broker ttl before acts) (ha : a.ofSends = true)
    (hb : a.begun? = none) : Together broker ttl before (acts ++ [a]) := by
  have hbegins : begins (acts ++ [a]) = begins acts := by
    rw [begins_append, begins_cons, hb]
    exact List.append_nil _
  refine ⟨h.idle, h.calm, fun b hm => ?_, hbegins ▸ h.distinct⟩
  rcases List.mem_append.mp hm with hm | hm
  · exact h.only b hm
  · exact List.mem_singleton.mp hm ▸ ha

/-- Where no call is in flight, the deliveries of every send that is have begun. -/
theorem run_delivering (hd : Distinct steps) (hs : (run (fresh broker ttl) steps).1.send? k = some s)
    (hcalls : (run (fresh broker ttl) steps).1.registry.calls = []) :
    s.phase ≠ .resolving ∧ ∀ known b hooks since, s.phase = .delivering known b hooks since →
      (hooks.map (·.hook.number)).Nodup := by
  obtain ⟨n, hn, hstory⟩ := run_story_of_send hd hs
  refine ⟨?_, fun known b hooks since => hstory.hooks_distinct hs⟩
  rcases hstory.in_flight hs with rfl | ⟨result, since, rfl, -⟩
  · have hcall := run_waiting hd hn hs
    rw [hcalls] at hcall
    cases hcall
  · simp [recorded]

/-- As long as a send is in flight, one can go on, and then less remains. -/
theorem goes_on (h : Together broker ttl before acts) (w : World)
    (hsettled : Steady lookup settled (run (fresh broker ttl) before).1.registry)
    (hsends : (w.plays lookup (run (fresh broker ttl) before).1 acts).1.sends ≠ []) :
    let S := setting (run (fresh broker ttl) before).1 w lookup settled
    let d := (w.plays lookup (run (fresh broker ttl) before).1 acts).1
    ∃ a : Act, a.ofSends = true ∧ a.begun? = none ∧
      remaining S (w.play lookup d a).1 < remaining S d := by
  intro S d
  obtain ⟨hS, htheirs, -⟩ := plays_whole h w hsettled
  change S.Holds d at hS
  change Theirs (begins acts) d at htheirs
  have hd := h.distinct_steps w lookup
  have hrun : d = (run (fresh broker ttl)
      (before ++ w.steps lookup (run (fresh broker ttl) before).1 acts)).1 := plays_before w lookup _ _
  have hi := hd.inner (fresh broker ttl)
  have hnumbers : (d.registry.calls.map (·.number)).Nodup := by
    rw [hrun, run_registry]
    exact (run_numbered ttl hi).calls_nodup hi
  by_cases hcalls : d.registry.calls = []
  · obtain ⟨u, hu⟩ := List.exists_mem_of_ne_nil d.sends hsends
    have hs : d.send? u.number = some u := by
      refine send?_of_mem ?_ hu
      rw [hrun]
      exact run_apart hd
    have hdelivering := run_delivering hd (hrun ▸ hs) (hrun ▸ hcalls)
    obtain ⟨a, t, ha, hb, ht, hreg, hsaid⟩ :=
      answer_act lookup hs (hS.underway u hu) hdelivering.1 hdelivering.2
    obtain ⟨own, hlive, -⟩ := (h.snoc ha hb).lively w rfl hS htheirs ht
    have hless : (said (step d t).2).length + (S.left (step d t).1).card = (S.left d).card :=
      hlive.less ha hb ht
    have hplay : w.play lookup d a = step d t := act_of_some ht
    refine ⟨a, ha, hb, ?_⟩
    rw [hplay, remaining, remaining, hreg]
    omega
  · have hlined : Lined d.registry := by
      rw [hrun, run_registry]
      exact run_lined ttl hi
    obtain ⟨t, ht⟩ := hlined.next hcalls lookup
    obtain ⟨a, ha, hb, hs⟩ := next_act (w := w) hnumbers ht
    obtain ⟨own, hlive, -⟩ := (h.snoc ha hb).lively w rfl hS htheirs hs
    have hless : (said (step d (.registry t)).2).length +
        (S.left (step d (.registry t)).1).card = (S.left d).card := hlive.less ha hb hs
    have hpending := next?_pending hnumbers ht
    refine ⟨a, ha, hb, ?_⟩
    rw [World.play, act_of_some hs, remaining, remaining, (step_of_inner_some rfl).1]
    omega

/-- Where sends begin together it is settled what their calls come to. -/
theorem Together.steady (h : Together broker ttl before acts) (lookup : Int64 → Lookup) :
    ∃ settled, Steady lookup settled (run (fresh broker ttl) before).1.registry := by
  refine steady_at_rest lookup ?_ h.calm fun n e => ?_
  · rw [run_registry]
    exact run_keyed ttl _
  · rw [run_registry]
    exact run_built ttl _

/-- However far sends have come, they can all go on to their end. -/
theorem comes_to_end (h : Together broker ttl before acts) (w : World) (lookup : Int64 → Lookup) :
    ∃ more : List Act, (∀ a ∈ more, a.ofSends = true ∧ a.begun? = none) ∧
      (w.plays lookup (run (fresh broker ttl) before).1 (acts ++ more)).1.sends = [] := by
  obtain ⟨settled, hsettled⟩ := h.steady lookup
  let S := setting (run (fresh broker ttl) before).1 w lookup settled
  induction hm : remaining S (w.plays lookup (run (fresh broker ttl) before).1 acts).1
    using Nat.strong_induction_on generalizing acts with
  | _ m ih =>
    subst hm
    by_cases hsends : (w.plays lookup (run (fresh broker ttl) before).1 acts).1.sends = []
    · exact ⟨[], List.forall_mem_nil _, by rwa [List.append_nil]⟩
    · obtain ⟨a, ha, hb, hless⟩ := goes_on h w hsettled hsends
      have hsnoc := plays_snoc w lookup (run (fresh broker ttl) before).1 acts a
      obtain ⟨more, hmore, hend⟩ := ih _ (by rw [hsnoc]; exact hless) (h.snoc ha hb) rfl
      refine ⟨a :: more, List.forall_mem_cons.mpr ⟨⟨ha, hb⟩, hmore⟩, ?_⟩
      rwa [List.append_cons]

/-- The messages that go out, each with its send. -/
def published (o : List Output) : List (Nat × Message) :=
  o.filterMap fun
    | .published k m => some (k, m)
    | _ => none

/-- The requests that go out, each with its send. -/
def requested (o : List Output) : List (Nat × Webhook.Request) :=
  o.filterMap fun
    | .requested k _ r => some (k, r)
    | _ => none

/-- The deliveries that end, each with its send and where it went. -/
def delivered (o : List Output) : List (Nat × Target × Delivery) :=
  o.filterMap fun
    | .delivered k t x => some (k, t.bare, x)
    | _ => none

/-- What does not depend on the numbers of webhooks, nor on what is not said of sends, can be read
off what is. -/
theorem filterMap_said {α : Type} {f : Output → Option α} (h : ∀ x, x.bare?.bind f = f x)
    (o : List Output) : o.filterMap f = (said o).filterMap f := by
  rw [said, List.filterMap_filterMap]
  exact List.filterMap_congr fun x _ => (h x).symm

/-- What goes out, what becomes of it and how sends end is said. -/
theorem read_said (k : Nat) (o : List Output) :
    published o = published (said o) ∧ requested o = requested (said o) ∧
      delivered o = delivered (said o) ∧ results k o = results k (said o) := by
  refine ⟨filterMap_said (fun x => ?_) o, filterMap_said (fun x => ?_) o,
    filterMap_said (fun x => ?_) o, filterMap_said (fun x => ?_) o⟩
  all_goals
    cases x with
    | counted c => cases c <;> rfl
    | resolved j result => rcases result with (x | _) | e <;> rfl
    | delivered j t y => cases t <;> rfl
    | _ => rfl

theorem Meter.count_congr (m : Meter) {own own' : List Nat} (h : ∀ k, k ∈ own ↔ k ∈ own')
    (o : List Output) : m.count own o = m.count own' o := by
  refine List.countP_congr fun x _ => ?_
  cases x with
  | resolved k result => cases m <;> simp [Meter.sees, h]
  | _ => exact Iff.rfl

/-- The meters, but for the sends that are let in, read all the statistics. -/
theorem stats_of_paid {s t : Stats} (h : ∀ m : Meter, m ≠ .admitted → m.paid s = m.paid t) :
    s = t := by
  have hsent := h .notified (by simp)
  have hdelivered := h .successes (by simp)
  have hfailed := h .failures (by simp)
  have hbroker := h (.broker .failed) (by simp)
  have hhooks := h (.hooks .ended) (by simp)
  have hhookFailures := h (.hooks .failed) (by simp)
  have hstorage := h .unresolved (by simp)
  cases s
  cases t
  simp only [Meter.paid] at *
  rw [hsent, hdelivered, hfailed, hbroker, hhooks, hhookFailures, hstorage]

/-- What is counted is said. -/
theorem count_said (m : Meter) (own : List Nat) (o : List Output) :
    m.count own o = m.count own (said o) := by
  rw [Meter.count, Meter.count, said, List.countP_filterMap]
  refine List.countP_congr fun x _ => ?_
  cases x with
  | counted c => cases c <;> cases m <;> exact Iff.rfl
  | resolved j result => rcases result with (x | _) | e <;> cases m <;> exact Iff.rfl
  | attempted j t n => cases t <;> exact Iff.rfl
  | delivered j t y => cases t <;> exact Iff.rfl
  | _ => exact Iff.rfl

/-- Sends that begin and go on in some order, until none is in flight. -/
structure Interleaved (w : World) (lookup : Int64 → Lookup) (d : Dispatcher)
    (sends : List (Nat × Encoded)) (acts : List Act) : Prop where
  only : ∀ a ∈ acts, a.ofSends = true
  begun : (begins acts).Perm sends
  done : (w.plays lookup d acts).1.sends = []

/-- Sends of which each comes to its end before the next begins. -/
inductive InTurn (w : World) (lookup : Int64 → Lookup) (d : Dispatcher) :
    List (Nat × Encoded) → List Act → Prop where
  | nobody : InTurn w lookup d [] []
  | next (sends : List (Nat × Encoded)) (acts : List Act) (k : Nat) (n : Encoded)
      (more : List Act) (earlier : InTurn w lookup d sends acts)
      (only : ∀ a ∈ more, a.ofSends = true ∧ a.begun? = none)
      (done : (w.plays lookup d (acts ++ .send k n :: more)).1.sends = []) :
      InTurn w lookup d (sends ++ [(k, n)]) (acts ++ .send k n :: more)

/-- Sends have come to the same: each has ended once, with the same result, the same has gone out
for it and come of it, and the same is counted. -/
structure SameFor (sends : List (Nat × Encoded)) (x y : Outcome) : Prop where
  results : ∀ s ∈ sends, ∃ result, results s.1 x.2 = [result] ∧ results s.1 y.2 = [result]
  published : (published x.2).Perm (published y.2)
  requested : (requested x.2).Perm (requested y.2)
  delivered : (delivered x.2).Perm (delivered y.2)
  stats : x.1.stats = y.1.stats

theorem begins_of_ongoing {more : List Act} (h : ∀ a ∈ more, a.ofSends = true ∧ a.begun? = none) :
    begins more = [] :=
  List.filterMap_eq_nil_iff.mpr fun a ha => (h a ha).2

theorem InTurn.interleaved {sends : List (Nat × Encoded)} (h : InTurn w lookup d sends acts)
    (hidle : d.sends = []) : Interleaved w lookup d sends acts := by
  induction h with
  | nobody => exact ⟨List.forall_mem_nil _, .refl _, hidle⟩
  | next sends acts k n more _ only done ih =>
    refine ⟨fun a ha => ?_, ?_, done⟩
    · rcases List.mem_append.mp ha with ha | ha
      · exact ih.only a ha
      · rcases List.mem_cons.mp ha with rfl | ha
        · rfl
        · exact (only a ha).1
    · rw [begins_append, begins_cons, begins_of_ongoing only]
      exact ih.begun.append_right _

theorem distinct_perm {xs ys : List (Nat × Encoded)} (h : xs.Perm ys)
    (hd : Distinct (before ++ openings ys)) : Distinct (before ++ openings xs) := by
  unfold Distinct at hd ⊢
  exact (((h.map _).append_left before).filterMap _).nodup_iff.mpr hd

section

variable {sends : List (Nat × Encoded)} (hidle : (run (fresh broker ttl) before).1.sends = [])
  (hcalm : (run (fresh broker ttl) before).1.registry.calls = [])
  (hd : Distinct (before ++ openings sends))

include hidle hcalm hd

theorem Interleaved.together
    (h : Interleaved w lookup (run (fresh broker ttl) before).1 sends acts) :
    Together broker ttl before acts :=
  ⟨hidle, hcalm, h.only, distinct_perm h.begun hd⟩

/-- Every order in which sends begin and go on can be brought to an end. -/
theorem interleaving_ends {rest : List (Nat × Encoded)} (w : World) (lookup : Int64 → Lookup)
    (honly : ∀ a ∈ acts, a.ofSends = true) (hrest : (begins acts ++ rest).Perm sends) :
    ∃ more, Interleaved w lookup (run (fresh broker ttl) before).1 sends (acts ++ more) := by
  let all := acts ++ rest.map fun x => Act.send x.1 x.2
  have hopen : begins (rest.map fun x => Act.send x.1 x.2) = rest := by
    rw [begins, List.filterMap_map]
    exact List.filterMap_some
  have hbegins : begins all = begins acts ++ rest := by rw [begins_append, hopen]
  have hall : ∀ a ∈ all, a.ofSends = true := by
    intro a ha
    rcases List.mem_append.mp ha with ha | ha
    · exact honly a ha
    · obtain ⟨x, -, rfl⟩ := List.mem_map.mp ha
      rfl
  have htogether : Together broker ttl before all :=
    ⟨hidle, hcalm, hall, distinct_perm (hbegins ▸ hrest) hd⟩
  obtain ⟨more, hmore, hend⟩ := comes_to_end htogether w lookup
  refine ⟨rest.map (fun x => Act.send x.1 x.2) ++ more, fun a ha => ?_, ?_, ?_⟩
  · rw [← List.append_assoc] at ha
    exact (List.mem_append.mp ha).elim (hall a) fun hm => (hmore a hm).1
  · rw [← List.append_assoc, begins_append, begins_of_ongoing hmore, List.append_nil]
    exact hbegins ▸ hrest
  · rw [← List.append_assoc]
    exact hend

/-- Sends can be run one after another. -/
theorem exists_inTurn (w : World) (lookup : Int64 → Lookup) :
    ∃ acts, InTurn w lookup (run (fresh broker ttl) before).1 sends acts := by
  induction sends using List.reverseRecOn with
  | nil => exact ⟨[], .nobody⟩
  | append_singleton sends x ih =>
    obtain ⟨k, n⟩ := x
    have hfirst : Distinct (before ++ openings sends) := by
      rw [openings, List.map_append, ← List.append_assoc] at hd
      exact hd.append_left
    obtain ⟨acts, hacts⟩ := ih hfirst
    have hinter := hacts.interleaved hidle
    have hbegins : begins (acts ++ [.send k n]) = begins acts ++ [(k, n)] := begins_append acts _
    have htogether : Together broker ttl before (acts ++ [.send k n]) := by
      refine ⟨hidle, hcalm, fun a ha => ?_, ?_⟩
      · rcases List.mem_append.mp ha with ha | ha
        · exact hinter.only a ha
        · exact List.mem_singleton.mp ha ▸ rfl
      · rw [hbegins]
        exact distinct_perm (hinter.begun.append_right _) hd
    obtain ⟨more, hmore, hend⟩ := comes_to_end htogether w lookup
    rw [List.append_assoc] at hend
    exact ⟨_, .next sends acts k n more hacts hmore hend⟩

/-- The same is said of sends, however they come to their end. -/
theorem Interleaved.says {acts' : List Act}
    (h : Interleaved w lookup (run (fresh broker ttl) before).1 sends acts)
    (h' : Interleaved w lookup (run (fresh broker ttl) before).1 sends acts') :
    (said (w.plays lookup (run (fresh broker ttl) before).1 acts).2).Perm
      (said (w.plays lookup (run (fresh broker ttl) before).1 acts').2) := by
  obtain ⟨settled, hsettled⟩ := (h.together hidle hcalm hd).steady lookup
  let S := setting (run (fresh broker ttl) before).1 w lookup settled
  have hwhole : ∀ {as}, Interleaved w lookup (run (fresh broker ttl) before).1 sends as →
      (said (w.plays lookup (run (fresh broker ttl) before).1 as).2).Perm
        (sends.flatMap fun x => S.whole x.1 x.2) := by
    intro as has
    obtain ⟨-, -, hall⟩ := plays_whole (has.together hidle hcalm hd) w hsettled
    have hnone : S.left (w.plays lookup (run (fresh broker ttl) before).1 as).1 = 0 := by
      rw [Setting.left, has.done]
      rfl
    rw [hnone, add_zero, Multiset.coe_eq_coe] at hall
    exact hall.trans (has.begun.flatMap_right _)
  exact (hwhole h).trans (hwhole h').symm

/-- What the statistics count when sends have come to their end: what came out before, and what came
out of them. -/
theorem Interleaved.counted
    (h : Interleaved w lookup (run (fresh broker ttl) before).1 sends acts) {m : Meter}
    (hm : m ≠ .admitted) :
    m.paid (w.plays lookup (run (fresh broker ttl) before).1 acts).1.stats =
      m.count (sendsOf (before ++ openings sends)) (run (fresh broker ttl) before).2 +
        m.count (sendsOf (before ++ openings sends))
          (said (w.plays lookup (run (fresh broker ttl) before).1 acts).2) := by
  have hrun := run_before (d := fresh broker ttl) w lookup before acts
  have hdone : (run (fresh broker ttl)
      (before ++ w.steps lookup (run (fresh broker ttl) before).1 acts)).1.sends = [] := by
    rw [hrun]
    exact h.done
  have hcounted := run_counted ((h.together hidle hcalm hd).distinct_steps w lookup) hdone hm
  rw [hrun, Meter.count_append] at hcounted
  have hown : ∀ k, k ∈ sendsOf (before ++ w.steps lookup (run (fresh broker ttl) before).1 acts) ↔
      k ∈ sendsOf (before ++ openings sends) := by
    intro k
    simp only [mem_sendsOf, List.mem_append, begin_mem_steps, h.begun.mem_iff]
    simp [openings]
  rw [← count_said, ← m.count_congr hown, ← m.count_congr hown]
  exact hcounted

/-- A send that comes to its end has one result. -/
theorem Interleaved.result
    (h : Interleaved w lookup (run (fresh broker ttl) before).1 sends acts)
    (hk : (k, n) ∈ sends) :
    ∃ result, results k (w.plays lookup (run (fresh broker ttl) before).1 acts).2 = [result] := by
  have hrun := run_before (d := fresh broker ttl) w lookup before acts
  have hdist := (h.together hidle hcalm hd).distinct_steps w lookup
  have hbegin : .begin k n ∈ w.steps lookup (run (fresh broker ttl) before).1 acts :=
    (begin_mem_steps w lookup _ acts).mpr (h.begun.mem_iff.mpr hk)
  have hquiet : results k (run (fresh broker ttl) before).2 = [] := by
    refine (run_absent broker ttl hdist.append_left fun hm => ?_).2.2.1.results
    unfold Distinct at hdist
    rw [List.filterMap_append] at hdist
    exact (List.nodup_append.mp hdist).2.2 k hm k (List.mem_filterMap.mpr ⟨_, hbegin, rfl⟩) rfl
  have hdone : (run (fresh broker ttl)
      (before ++ w.steps lookup (run (fresh broker ttl) before).1 acts)).1.sends = [] := by
    rw [hrun]
    exact h.done
  have hfate := run_fate hdist hdone (List.mem_append_right _ hbegin)
  rw [hrun] at hfate
  cases hfate with
  | refused _ _ _ _ ended =>
    rw [results_append, hquiet] at ended
    exact ⟨_, ended⟩
  | delivered _ _ _ _ _ ended =>
    rw [results_append, hquiet] at ended
    exact ⟨_, ended⟩

/-- However sends come to their end, they come to the same. -/
theorem Interleaved.same {acts' : List Act}
    (h : Interleaved w lookup (run (fresh broker ttl) before).1 sends acts)
    (h' : Interleaved w lookup (run (fresh broker ttl) before).1 sends acts') :
    SameFor sends (w.plays lookup (run (fresh broker ttl) before).1 acts)
      (w.plays lookup (run (fresh broker ttl) before).1 acts') := by
  have hsaid := h.says hidle hcalm hd h'
  have hpaid : ∀ m : Meter, m ≠ .admitted →
      m.paid (w.plays lookup (run (fresh broker ttl) before).1 acts).1.stats =
        m.paid (w.plays lookup (run (fresh broker ttl) before).1 acts').1.stats := by
    intro m hm
    rw [h.counted hidle hcalm hd hm, h'.counted hidle hcalm hd hm]
    exact congrArg _ (hsaid.countP_eq _)
  refine ⟨fun s hs => ?_, ?_, ?_, ?_, ?_⟩
  · obtain ⟨k, n⟩ := s
    obtain ⟨result, hr⟩ := h.result hidle hcalm hd hs
    obtain ⟨result', hr'⟩ := h'.result hidle hcalm hd hs
    refine ⟨result, hr, ?_⟩
    have hperm : (results k _).Perm (results k _) := hsaid.filterMap _
    rw [← (read_said k _).2.2.2, ← (read_said k _).2.2.2, hr, hr'] at hperm
    rw [hr', List.singleton_perm_singleton.mp hperm]
  · rw [(read_said 0 _).1, (read_said 0 (w.plays lookup _ acts').2).1]
    exact hsaid.filterMap _
  · rw [(read_said 0 _).2.1, (read_said 0 (w.plays lookup _ acts').2).2.1]
    exact hsaid.filterMap _
  · rw [(read_said 0 _).2.2.1, (read_said 0 (w.plays lookup _ acts').2).2.2.1]
    exact hsaid.filterMap _
  · exact stats_of_paid hpaid

end

/-- Sends that begin together at a dispatcher at rest are confluent. Whatever was done before and is
cached, as long as lookups, the publisher and the far sides answer by what they are asked and
nothing but the sends goes on: every order in which they have begun and gone on so far can be
brought to an end, they can be run one after another in every order, and every order comes to what
running them one after another comes to. -/
theorem sends_confluent (broker : BrokerBackend) (ttl : Option Duration) (before : List Step)
    (w : World) (lookup : Int64 → Lookup) (sends : List (Nat × Encoded))
    (hidle : (run (fresh broker ttl) before).1.sends = [])
    (hcalm : (run (fresh broker ttl) before).1.registry.calls = [])
    (hd : Distinct (before ++ openings sends)) :
    let d := (run (fresh broker ttl) before).1
    (∀ acts rest, (∀ a ∈ acts, a.ofSends = true) → (begins acts ++ rest).Perm sends →
        ∃ more, Interleaved w lookup d sends (acts ++ more)) ∧
      (∀ order : List (Nat × Encoded), order.Perm sends → ∃ turns, InTurn w lookup d order turns) ∧
      ∀ acts order turns, Interleaved w lookup d sends acts → order.Perm sends →
        InTurn w lookup d order turns →
          SameFor sends (w.plays lookup d acts) (w.plays lookup d turns) := by
  intro d
  refine ⟨fun acts rest honly hrest => interleaving_ends hidle hcalm hd w lookup honly hrest,
    fun order hperm => exists_inTurn hidle hcalm (distinct_perm hperm hd) w lookup,
    fun acts order turns hacts hperm hturns => ?_⟩
  have hall := hturns.interleaved hidle
  exact hacts.same hidle hcalm hd ⟨hall.only, hall.begun.trans hperm, hall.done⟩

/-- Three sends, of which two are for one application. -/
def abreast : List (Nat × Encoded) :=
  [(0, joined), (1, ⟨7, .zero 8, .rx, "null"⟩), (2, ⟨9, .zero 8, .join, "null"⟩)]

/-- A world that takes whatever is published. -/
def accepting : World := ⟨fun _ => .accepted, fun _ => .ok 200, .accepted⟩

/-- The lookup of one application finds a row that can be built and one that cannot. Every other
lookup fails. -/
def knownRows (application : Int64) : Lookup :=
  if application = 7 then .ok [⟨7, "MAIL", .null⟩, ⟨7, "HTTP", .null⟩]
  else .error (.unavailable "down")

/-- One send after another. As entries expire at once, each looks up for itself. -/
def oneByOne : List Act :=
  [.send 0 joined, .load 0, .publish 0, .send 1 ⟨7, .zero 8, .rx, "null"⟩, .load 1, .publish 1,
    .send 2 ⟨9, .zero 8, .join, "null"⟩, .load 2, .publish 2]

/-- Side by side, where the first two share a lookup. -/
def crossed : List Act :=
  [.send 2 ⟨9, .zero 8, .join, "null"⟩, .send 1 ⟨7, .zero 8, .rx, "null"⟩, .send 0 joined,
    .load 1, .publish 1, .wake 0, .load 2, .publish 0, .publish 2]

theorem sends_confluent_crossed :
    let d := (run (fresh (.new .atMostOnce ⟨5⟩) (some ⟨0⟩)) []).1
    d.sends = [] ∧ d.registry.calls = [] ∧ Distinct ([] ++ openings abreast) ∧
      Interleaved accepting knownRows d abreast crossed ∧ InTurn accepting knownRows d abreast oneByOne ∧
      SameFor abreast (accepting.plays knownRows d crossed) (accepting.plays knownRows d oneByOne) ∧
      (accepting.plays knownRows d crossed).1.stats = ⟨3, 0, 3, 0, 2, 0, 1⟩ ∧
      ((accepting.plays knownRows d crossed).1.registry.stats.loads = 2 ∧
        (accepting.plays knownRows d oneByOne).1.registry.stats.loads = 3) := by
  intro d
  have hd : Distinct ([] ++ openings abreast) := by decide
  have hcrossed : Interleaved accepting knownRows d abreast crossed :=
    ⟨by decide, List.reverse_perm abreast, rfl⟩
  have hfirst : InTurn accepting knownRows d [(0, joined)] [.send 0 joined, .load 0, .publish 0] :=
    .next [] [] 0 joined [.load 0, .publish 0] .nobody (by decide) rfl
  have hsecond : InTurn accepting knownRows d [(0, joined), (1, ⟨7, .zero 8, .rx, "null"⟩)]
      [.send 0 joined, .load 0, .publish 0, .send 1 ⟨7, .zero 8, .rx, "null"⟩, .load 1, .publish 1] :=
    .next _ _ 1 _ [.load 1, .publish 1] hfirst (by decide) rfl
  have hturns : InTurn accepting knownRows d abreast oneByOne :=
    .next _ _ 2 _ [.load 2, .publish 2] hsecond (by decide) rfl
  exact ⟨rfl, rfl, hd, hcrossed, hturns,
    (sends_confluent _ _ [] accepting knownRows abreast rfl rfl hd).2.2 crossed abreast oneByOne hcrossed
      (.refl _) hturns, rfl, rfl, rfl⟩

end Uplink.Dispatch
