import Uplink.Proofs.Dispatch.Shutdown

namespace Uplink.Dispatch

open Backend Broker Notification Registry Time

variable {d : Dispatcher} {k : Nat} {n : Encoded} {o : List Output} {s t : Send} {x y : Outcome}
  {steps : List Step} {broker : BrokerBackend} {ttl : Option Duration}

/-- The numbers of the sends that begin, in order. -/
def sendsOf (steps : List Step) : List Nat :=
  steps.filterMap fun
    | .begin send _ => some send
    | _ => none

/-- The ends of sends, in order. -/
def ends (o : List Output) : List (Nat × Sent) :=
  o.filterMap fun
    | .sent send result => some (send, result)
    | _ => none

@[simp] theorem ends_append (o o' : List Output) : ends (o ++ o') = ends o ++ ends o' :=
  List.filterMap_append

theorem mem_ends {result : Sent} : (k, result) ∈ ends o ↔ .sent k result ∈ o := by
  simp only [ends, List.mem_filterMap]
  constructor
  · rintro ⟨x, hx, hr⟩
    cases x with
    | sent j r =>
      cases hr
      exact hx
    | _ => cases hr
  · exact fun h => ⟨_, h, rfl⟩

theorem mem_sendsOf : k ∈ sendsOf steps ↔ ∃ n, .begin k n ∈ steps := by
  simp only [sendsOf, List.mem_filterMap]
  constructor
  · rintro ⟨s, hs, hk⟩
    cases s with
    | begin j n =>
      cases hk
      exact ⟨n, hs⟩
    | _ => cases hk
  · rintro ⟨n, h⟩
    exact ⟨_, h, rfl⟩

theorem sendsOf_append (xs ys : List Step) : sendsOf (xs ++ ys) = sendsOf xs ++ sendsOf ys :=
  List.filterMap_append

theorem sendsOf_sublist (steps : List Step) :
    (sendsOf steps).Sublist (steps.filterMap Step.begun?) := by
  refine filterMap_sublist (fun s j hs => ?_) steps
  cases s with
  | begin i n => exact hs
  | _ => cases hs

theorem Distinct.sends (hd : Distinct steps) : (sendsOf steps).Nodup :=
  List.Nodup.sublist (sendsOf_sublist steps) hd

/-- The numbers of the sends in flight. -/
def numbers (d : Dispatcher) : List Nat := d.sends.map (·.number)

/-- No two sends in flight have one number. -/
def Apart (d : Dispatcher) : Prop := (numbers d).Nodup

theorem mem_of_send? (h : d.send? k = some s) : s ∈ d.sends ∧ s.number = k :=
  ⟨List.mem_of_find?_eq_some h, send?_number h⟩

theorem send?_of_mem (hn : Apart d) (hs : s ∈ d.sends) : d.send? s.number = some s := by
  cases h : d.send? s.number with
  | none => simpa using List.find?_eq_none.mp h s hs
  | some t =>
    obtain ⟨ht, he⟩ := mem_of_send? h
    rw [List.inj_on_of_nodup_map hn ht hs he]

/-- A send of a number that no other has is all there is to that number. -/
theorem split_of_send? (hn : Apart d) (hs : d.send? k = some s) :
    ∃ pre post, d.sends = pre ++ s :: post ∧ ∀ u ∈ pre ++ post, u.number ≠ k := by
  obtain ⟨hm, rfl⟩ := mem_of_send? hs
  obtain ⟨pre, post, hsplit⟩ := List.append_of_mem hm
  refine ⟨pre, post, hsplit, fun u hu he => ?_⟩
  unfold Apart numbers at hn
  have hfront : (pre ++ s :: post).Perm (s :: (pre ++ post)) := List.perm_middle
  rw [hsplit, (hfront.map _).nodup_iff, List.map_cons, List.nodup_cons] at hn
  exact hn.1 (he ▸ List.mem_map_of_mem hu)

theorem dropSend_split (hn : Apart d) (ht : d.send? k = some t) :
    ∃ pre post, d.sends = pre ++ t :: post ∧ (d.dropSend k).sends = pre ++ post := by
  obtain ⟨pre, post, hsplit, hother⟩ := split_of_send? hn ht
  refine ⟨pre, post, hsplit, ?_⟩
  simp only [Dispatcher.dropSend, hsplit, List.filter_append, List.filter_cons,
    send?_number ht, bne_self_eq_false, Bool.false_eq_true, ↓reduceIte]
  rw [← List.filter_append, List.filter_eq_self]
  exact fun u hu => bne_iff_ne.mpr (hother u hu)

theorem setSend_split (hn : Apart d) (ht : d.send? s.number = some t) :
    ∃ pre post, d.sends = pre ++ t :: post ∧ (d.setSend s).sends = pre ++ s :: post := by
  obtain ⟨pre, post, hsplit, hother⟩ := split_of_send? hn ht
  refine ⟨pre, post, hsplit, ?_⟩
  have hkept : ∀ l : List Send, (∀ u ∈ l, u ∈ pre ++ post) →
      l.map (fun u => if u.number = s.number then s else u) = l := by
    intro l hl
    rw [List.map_congr_left fun u hu => if_neg (hother u (hl u hu)), List.map_id']
  simp only [Dispatcher.setSend, hsplit, List.map_append, List.map_cons, send?_number ht,
    ↓reduceIte]
  rw [hkept pre fun u hu => List.mem_append_left _ hu,
    hkept post fun u hu => List.mem_append_right _ hu]

/-- Of the webhooks of a send, which have distinct numbers, an answer finds the one it is for,
unless that has been answered before. -/
theorem find?_attempt {hooks : List HookAttempt} {x : HookAttempt}
    (hd : (hooks.map (·.hook.number)).Nodup) (hx : x ∈ hooks) :
    hooks.find? (fun y => y.hook.number == x.hook.number && y.outcome.isNone) =
      if x.outcome.isNone then some x else none := by
  cases hf : hooks.find? (fun y => y.hook.number == x.hook.number && y.outcome.isNone) with
  | none =>
    have hnot := List.find?_eq_none.mp hf x hx
    rw [if_neg (by simpa using hnot)]
  | some y =>
    have hy := List.find?_some hf
    rw [Bool.and_eq_true, beq_iff_eq] at hy
    obtain rfl := List.inj_on_of_nodup_map hd (List.mem_of_find?_eq_some hf) hx hy.1
    rw [if_pos hy.2]

/-- Where webhooks have distinct numbers, an outcome is recorded for one of them. -/
theorem record_split {attempts : List HookAttempt} {a : HookAttempt} {hook : Nat}
    (hd : (attempts.map (·.hook.number)).Nodup)
    (ha : attempts.find? (fun a => a.hook.number == hook && a.outcome.isNone) = some a)
    (r : Delivery) :
    ∃ pre post, attempts = pre ++ a :: post ∧
      attempts.map (record hook r) = pre ++ { a with outcome := some r } :: post := by
  have hfound := List.find?_some ha
  rw [Bool.and_eq_true, beq_iff_eq] at hfound
  obtain ⟨rfl, hnone⟩ := hfound
  obtain ⟨pre, post, rfl⟩ := List.append_of_mem (List.mem_of_find?_eq_some ha)
  refine ⟨pre, post, rfl, ?_⟩
  have hfront : (pre ++ a :: post).Perm (a :: (pre ++ post)) := List.perm_middle
  rw [(hfront.map _).nodup_iff, List.map_cons, List.nodup_cons] at hd
  have hkept : ∀ l : List HookAttempt, (∀ c ∈ l, c ∈ pre ++ post) →
      l.map (record a.hook.number r) = l := by
    intro l hl
    refine (List.map_congr_left fun c hc => ?_).trans (List.map_id' l)
    refine if_neg fun h => hd.1 ?_
    rw [← h.1]
    exact List.mem_map_of_mem (hl c hc)
  rw [List.map_append, List.map_cons, hkept pre fun c hc => List.mem_append_left _ hc,
    hkept post fun c hc => List.mem_append_right _ hc]
  congr 2
  exact if_pos ⟨rfl, hnone⟩

/-- The send that an output is about. -/
def Output.about? : Output → Option Nat
  | .attempted k _ _ | .published k _ | .requested k _ _ | .delivered k _ _ | .sent k _ => some k
  | _ => none

/-- Nothing is said of any send but one. -/
def Only (k : Nat) (o : List Output) : Prop := ∀ x ∈ o, ∀ j, x.about? = some j → j = k

theorem Only.append {o' : List Output} (h : Only k o) (h' : Only k o') : Only k (o ++ o') :=
  List.forall_mem_append.mpr ⟨h, h'⟩

theorem proceed_only (d : Dispatcher) (s : Send) : Only s.number (proceed d s).2 := by
  intro x hx j hj
  obtain ⟨result, rfl⟩ := proceed_says d s x hx
  exact (Option.some.inj hj).symm

theorem ended_only (k : Nat) (t : Target) (event : Event) (r : Delivery) :
    Only k (ended k t event r) := by
  simp [Only, ended, Output.about?]

theorem launches_only (d : Dispatcher) (k : Nat) (n : Encoded) (hooks : List Hook) :
    Only k (launches d k n hooks) := by
  intro x hx
  obtain ⟨t, -, ht⟩ := List.mem_flatMap.mp hx
  have hlaunch : Only k (launch d k n t).2 := by
    cases t with
    | broker =>
      simp only [launch, beginBroker]
      split <;> simp [Only, ended, Output.about?]
    | hook h =>
      simp only [launch, beginHook]
      split <;> simp [Only, ended, Output.about?]
  exact hlaunch x ht

theorem onResolved_only (d : Dispatcher) (s : Send) (result : Resolved) :
    Only s.number (onResolved d s result).2 := by
  have hdeliver : ∀ d known hooks, Only s.number (deliver d s known hooks).2 := by
    intro d known hooks
    rw [deliver_eq]
    exact (launches_only d _ _ hooks).append (proceed_only d { s with phase := _ })
  match result with
  | .ok e => exact hdeliver d _ _
  | .error (.storage e) => exact hdeliver _ _ _
  | .error .closed => simp [Only, onResolved, Output.about?]

/-- What the registry says leads to nothing about a send but with the return of its call. -/
theorem follow_about {outs : List Registry.Output} {out : Output} (h : out ∈ (follow d outs).2)
    (ha : out.about? = some k) : k ∈ returns outs ∧ (d.send? k).isSome := by
  induction outs generalizing d with
  | nil => cases h
  | cons first outs ih =>
    rw [follow_cons] at h
    rcases List.mem_append.mp h with h | h
    · cases first with
      | returned j result =>
        simp only [onOutput] at h
        split at h
        · rename_i s hs
          obtain rfl := send?_number hs
          rcases List.mem_cons.mp h with rfl | h
          · cases ha
          · obtain rfl := onResolved_only d s result out h k ha
            exact ⟨List.mem_cons_self, by simp [hs]⟩
        · rw [List.mem_singleton.mp h] at ha
          cases ha
      | _ =>
        rw [List.mem_singleton.mp h] at ha
        cases ha
    · obtain ⟨hk, hs⟩ := ih h
      refine ⟨?_, ?_⟩
      · obtain ⟨result, hm⟩ := returned_of_mem_returns hk
        exact mem_returns_of_returned (List.mem_cons_of_mem _ hm)
      · cases first with
        | returned j result =>
          simp only [onOutput] at hs
          split at hs
          · rename_i s hj
            obtain rfl := send?_number hj
            by_cases hne : k = s.number
            · simp [hne, hj]
            · rwa [(onResolved_touches d s result).others k hne] at hs
          · exact hs
        | _ => exact hs

theorem Answered.only {x : Outcome} (h : Answered k d x) : Only k x.2 := by
  cases h with
  | dropped => exact List.forall_mem_nil _
  | @taken s t y phase found =>
    obtain rfl := send?_number found
    exact (ended_only _ _ _ _).append (proceed_only d { s with phase })

/-- Sends leave as they end, and no other way. -/
def Kept (d : Dispatcher) (x : Outcome) : Prop :=
  ((ends x.2).map Prod.fst ++ numbers x.1).Perm (numbers d)

theorem Kept.idle (d : Dispatcher) : Kept d (d, []) := .refl _

theorem Kept.trans (h : Kept d x) (h' : Kept x.1 y) : Kept d (y.1, x.2 ++ y.2) := by
  unfold Kept at *
  rw [ends_append, List.map_append, List.append_assoc]
  exact (h'.append_left _).trans h

theorem Kept.say (h : Kept d x) (ho : ends o = []) : Kept d (x.1, o ++ x.2) := by
  unfold Kept
  rwa [ends_append, ho]

theorem Kept.apart (h : Kept d x) (hn : Apart d) : Apart x.1 :=
  (List.nodup_append.mp (h.nodup_iff.mpr hn)).2.1

theorem numbers_setSend (d : Dispatcher) (s : Send) : numbers (d.setSend s) = numbers d := by
  simp only [numbers, Dispatcher.setSend, List.map_map]
  refine List.map_congr_left fun t _ => ?_
  by_cases ht : t.number = s.number <;> simp [ht]

theorem numbers_dropSend (hn : Apart d) (ht : d.send? k = some t) :
    (k :: numbers (d.dropSend k)).Perm (numbers d) := by
  obtain ⟨pre, post, hsplit, hsends⟩ := dropSend_split hn ht
  rw [numbers, numbers, hsends, hsplit, ← send?_number ht, ← List.map_cons]
  exact List.perm_middle.symm.map _

theorem proceed_kept (hn : Apart d) (ht : d.send? s.number = some t) : Kept d (proceed d s) := by
  cases hc : concluded? s.phase with
  | some result =>
    obtain ⟨hs, -, -, ho⟩ := proceed_of_some (d := d) hc
    unfold Kept
    rw [ho, numbers, hs]
    exact numbers_dropSend hn ht
  | none =>
    rw [proceed_of_none hc]
    exact .of_eq (numbers_setSend d s)

theorem ends_launches (d : Dispatcher) (k : Nat) (n : Encoded) (hooks : List Hook) :
    ends (launches d k n hooks) = [] := by
  refine List.eq_nil_iff_forall_not_mem.mpr fun ⟨j, result⟩ hm => ?_
  rw [mem_ends, ← mem_results] at hm
  by_cases hj : j = k
  · rw [hj, results_launches] at hm
    cases hm
  · rw [(launches_quiet d n hooks hj).results] at hm
    cases hm

theorem deliver_kept (hn : Apart d) (hs : d.send? s.number = some t) (known : List BackendFailure)
    (hooks : List Hook) : Kept d (deliver d s known hooks) := by
  rw [deliver_eq]
  dsimp only
  exact (proceed_kept hn (by exact hs)).say (ends_launches d _ _ _)

theorem onResolved_kept (hn : Apart d) (hs : d.send? s.number = some t) (result : Resolved) :
    Kept d (onResolved d s result) := by
  match result with
  | .ok e => exact deliver_kept hn hs _ _
  | .error (.storage x) =>
    exact deliver_kept (d := { d with stats :=
      { d.stats with storageFailures := d.stats.storageFailures + 1 } }) hn hs _ _
  | .error .closed => exact numbers_dropSend hn hs

theorem follow_kept (hn : Apart d) (outs : List Registry.Output) : Kept d (follow d outs) := by
  induction outs generalizing d with
  | nil => exact .idle d
  | cons out outs ih =>
    have hout : Kept d (onOutput d out) := by
      cases out with
      | returned k result =>
        simp only [onOutput]
        split
        · rename_i s hs
          obtain rfl := send?_number hs
          exact (onResolved_kept hn hs result).say (o := [.resolved s.number result]) rfl
        · exact .idle d
      | _ => exact .idle d
    rw [follow_cons]
    exact hout.trans (ih (hout.apart hn))

theorem registryStep_kept (hn : Apart d) (t : Registry.Step) : Kept d (registryStep d t) :=
  follow_kept (d := { d with registry := (Registry.step d.registry t).1 }) hn _

/-- A dispatcher that has let a send in, before the registry is asked. -/
def entered (d : Dispatcher) (k : Nat) (n : Encoded) : Dispatcher :=
  { d with
    stats := { d.stats with totalSent := d.stats.totalSent + 1 }
    sends := d.sends ++ [⟨k, n, .resolving⟩] }

theorem begin_entered (hopen : d.closed = false) (k : Nat) (n : Encoded) :
    begin d k n =
      let x := registryStep (entered d k n) (.begin k n.applicationId)
      (x.1, .counted (.notification n.event) :: x.2) := by
  unfold begin
  rw [if_neg (by simp [hopen])]
  rfl

theorem send?_entered (d : Dispatcher) (j k : Nat) (n : Encoded) :
    (entered d k n).send? j = (d.send? j).or (if k = j then some ⟨k, n, .resolving⟩ else none) := by
  unfold entered Dispatcher.send?
  rw [List.find?_append, List.find?_singleton]
  simp only [beq_iff_eq]

theorem numbers_entered (d : Dispatcher) (k : Nat) (n : Encoded) :
    numbers (entered d k n) = numbers d ++ [k] :=
  List.map_append

theorem ends_passed (outs : List Registry.Output) : ends (outs.map pass) = [] := by
  refine List.filterMap_eq_nil_iff.mpr fun x hx => ?_
  obtain ⟨out, -, rfl⟩ := List.mem_map.mp hx
  cases out <;> rfl

/-- The closing of the registry is passed on, and a word on the close itself comes last. -/
theorem beginClose_cases (d : Dispatcher) (c : Nat) :
    ∃ outs word, returns outs = [] ∧ word.ofClose = true ∧
      (beginClose d c).2 = outs.map pass ++ [word] ∧ (beginClose d c).1.sends = d.sends ∧
      (beginClose d c).1.stats = d.stats := by
  have hpass : registryStep { d with closed := true } .close =
      ({ d with closed := true, registry := (Registry.step d.registry .close).1 },
        (Registry.step d.registry .close).2.map pass) :=
    registryStep_unwaited fun k result hm => absurd hm (close_unreturned _ k result)
  have hquiet : returns (Registry.step d.registry .close).2 = [] := by
    refine List.eq_nil_iff_forall_not_mem.mpr fun k hk => ?_
    obtain ⟨result, hm⟩ := returned_of_mem_returns hk
    exact close_unreturned _ k result hm
  unfold beginClose
  split
  · exact ⟨[], .closed c (.ok ()), rfl, rfl, rfl, rfl, rfl⟩
  · dsimp only
    rw [hpass]
    split
    · exact ⟨_, .closed c (.ok ()), hquiet, rfl, rfl, rfl, rfl⟩
    · exact ⟨_, .disconnected, hquiet, rfl, rfl, rfl, rfl⟩

theorem Answered.kept {x : Outcome} (h : Answered k d x) (hn : Apart d) : Kept d x := by
  cases h with
  | dropped => exact .idle d
  | @taken s t y phase found =>
    obtain rfl := send?_number found
    exact (proceed_kept (s := { s with phase }) hn found).say rfl

theorem step_kept {s : Step} (hn : Apart d) (hf : ∀ k n, s = .begin k n → k ∉ numbers d) :
    ((ends (step d s).2).map Prod.fst ++ numbers (step d s).1).Perm (numbers d ++ sendsOf [s]) := by
  have stays : ∀ {x}, sendsOf [s] = [] → Kept d x →
      ((ends x.2).map Prod.fst ++ numbers x.1).Perm (numbers d ++ sendsOf [s]) := by
    intro x hs hk
    rw [hs, List.append_nil]
    exact hk
  cases s with
  | begin k n =>
    cases hc : d.closed with
    | true =>
      simp only [step, begin, hc, ↓reduceIte]
      exact (List.perm_append_singleton k (numbers d)).symm
    | false =>
      have hn' : Apart (entered d k n) := by
        unfold Apart
        rw [numbers_entered]
        exact List.concat_eq_append ▸ hn.concat (hf k n rfl)
      have hk := registryStep_kept hn' (.begin k n.applicationId)
      rw [step, begin_entered hc]
      unfold Kept at hk
      rw [numbers_entered] at hk
      exact hk
  | registry t => exact stays rfl (registryStep_kept hn t)
  | brokerAnswer k a => exact stays rfl ((brokerAnswer_answered d k a).kept hn)
  | hookAnswer k hook r => exact stays rfl ((hookAnswer_answered d k hook r).kept hn)
  | beginClose c =>
    obtain ⟨outs, word, -, hword, ho, hsends, -⟩ := beginClose_cases d c
    have hends : ends [word] = [] := by
      cases word with
      | sent j result => cases hword
      | _ => rfl
    refine stays rfl ?_
    unfold Kept
    rw [step, ho, ends_append, ends_passed, hends, numbers, hsends]
    exact .refl _
  | closeAnswer a =>
    refine stays rfl ?_
    simp only [step, closeAnswer]
    split <;> exact .refl _

/-- Why a step says something of a send: the send begins, its call returns, or it is answered. -/
inductive Cause (send : Nat) (d : Dispatcher) (s : Step) : Prop where
  | begins (n : Encoded) (same : s = .begin send n)
  | resolved (present : send ∈ numbers d) (result : Resolved)
      (out : .resolved send result ∈ (step d s).2)
  | answers (present : send ∈ numbers d) (same : s.answered? = some send)

theorem step_cause {s : Step} {out : Output} (h : out ∈ (step d s).2) (ha : out.about? = some k) :
    Cause k d s := by
  have present : ∀ {t}, d.send? k = some t → k ∈ numbers d := by
    intro t ht
    obtain ⟨hm, rfl⟩ := mem_of_send? ht
    exact List.mem_map_of_mem hm
  have heard_return : ∀ {x : Dispatcher} {t : Registry.Step}, out ∈ (registryStep x t).2 →
      (x.send? k).isSome ∧ ∃ result, .resolved k result ∈ (registryStep x t).2 := by
    intro x t hm
    obtain ⟨hk, hs⟩ := follow_about hm ha
    obtain ⟨result, hr⟩ := returned_of_mem_returns hk
    exact ⟨hs, result, mem_heard_resolved.mp ((registryStep_heard x t).2 ▸ hr)⟩
  have answers : ∀ {j}, s.answered? = some j → Cause k d s := by
    intro j hans
    have hanswered := step_answered hans d
    obtain rfl := hanswered.only out h k ha
    generalize step d s = x at hanswered h
    cases hanswered with
    | dropped => cases h
    | taken found => exact .answers (present found) hans
  cases s with
  | begin j n =>
    by_cases hj : j = k
    · exact .begins n (by rw [hj])
    · cases hc : d.closed with
      | true =>
        simp only [step, begin, hc, ↓reduceIte, List.mem_singleton] at h
        rw [h] at ha
        exact absurd (Option.some.inj ha) hj
      | false =>
        rw [step, begin_entered hc] at h
        rcases List.mem_cons.mp h with rfl | h
        · cases ha
        · obtain ⟨hs, result, hr⟩ := heard_return h
          rw [send?_entered, if_neg hj, Option.or_none] at hs
          obtain ⟨t, ht⟩ := Option.isSome_iff_exists.mp hs
          refine .resolved (present ht) result ?_
          rw [step, begin_entered hc]
          exact List.mem_cons_of_mem _ hr
  | registry t =>
    obtain ⟨hs, result, hr⟩ := heard_return h
    obtain ⟨u, hu⟩ := Option.isSome_iff_exists.mp hs
    exact .resolved (present hu) result hr
  | brokerAnswer j a => exact answers rfl
  | hookAnswer j hook r => exact answers rfl
  | beginClose c =>
    obtain ⟨outs, word, -, hword, ho, -, -⟩ := beginClose_cases d c
    rw [step, ho] at h
    rcases List.mem_append.mp h with h | h
    · obtain ⟨x, -, rfl⟩ := List.mem_map.mp h
      cases x <;> cases ha
    · rw [List.mem_singleton.mp h] at ha
      cases word with
      | disconnected | closed => cases ha
      | _ => cases hword
  | closeAnswer a =>
    simp only [step, closeAnswer] at h
    split at h
    · rw [List.mem_singleton.mp h] at ha
      cases ha
    · cases h

theorem Distinct.fresh_send {s : Step} (hd : Distinct (steps ++ [s])) (hs : s = .begin k n) :
    k ∉ sendsOf steps := by
  subst hs
  have hk := hd.fresh (s := .begin k n) rfl
  exact fun hm => hk ((sendsOf_sublist steps).subset hm)

/-- Every send that begins is in flight or has ended, once. -/
theorem run_kept (broker : BrokerBackend) (ttl : Option Duration) (hd : Distinct steps) :
    ((ends (run (fresh broker ttl) steps).2).map Prod.fst ++
      numbers (run (fresh broker ttl) steps).1).Perm (sendsOf steps) := by
  induction steps using List.reverseRecOn with
  | nil => exact .refl _
  | append_singleton steps s ih =>
    have hp := ih hd.append_left
    have hnodup := hp.nodup_iff.mpr hd.append_left.sends
    rw [run_snoc, sendsOf_append, ends_append, List.map_append, List.append_assoc]
    refine ((step_kept (List.nodup_append.mp hnodup).2.1 fun k n hs hk => ?_).append_left _).trans ?_
    · exact hd.fresh_send hs (hp.subset (List.mem_append_right _ hk))
    · rw [← List.append_assoc]
      exact hp.append_right _

/-- Where no send is in flight, every send that has begun has ended, once. -/
theorem run_ended (hd : Distinct steps) (hidle : (run (fresh broker ttl) steps).1.sends = []) :
    ((ends (run (fresh broker ttl) steps).2).map Prod.fst).Perm (sendsOf steps) := by
  have hp := run_kept broker ttl hd
  rwa [numbers, hidle, List.map_nil, List.append_nil] at hp

theorem run_apart (hd : Distinct steps) : Apart (run (fresh broker ttl) steps).1 :=
  (List.nodup_append.mp ((run_kept broker ttl hd).nodup_iff.mpr hd.sends)).2.1

/-- A send in flight has begun. -/
theorem run_in_flight (hd : Distinct steps) (hk : k ∈ numbers (run (fresh broker ttl) steps).1) :
    k ∈ sendsOf steps :=
  (run_kept broker ttl hd).subset (List.mem_append_right _ hk)

/-- A send in flight has its story. -/
theorem run_story_of_send {u : Send} (hd : Distinct steps)
    (hu : (run (fresh broker ttl) steps).1.send? k = some u) :
    ∃ n, .begin k n ∈ steps ∧
      Story k n (run (fresh broker ttl) steps).1 (run (fresh broker ttl) steps).2 := by
  obtain ⟨hm, rfl⟩ := mem_of_send? hu
  obtain ⟨n, hn⟩ := mem_sendsOf.mp (run_in_flight hd (List.mem_map_of_mem hm))
  exact ⟨n, hn, run_story broker ttl hd hn⟩

/-- Only of sends that have begun anything is said. -/
theorem run_about {out : Output} (hd : Distinct steps)
    (h : out ∈ (run (fresh broker ttl) steps).2) (ha : out.about? = some k) :
    k ∈ sendsOf steps := by
  obtain ⟨before, s, after, rfl, hs⟩ := mem_run h
  rw [sendsOf_append]
  cases step_cause hs ha with
  | begins n he =>
    subst he
    exact List.mem_append_right _ (mem_sendsOf.mpr ⟨n, List.mem_cons_self⟩)
  | resolved hk | answers hk => exact List.mem_append_left _ (run_in_flight hd.append_left hk)

/-- No send has the number of a call that begins by itself. -/
theorem Distinct.apart_call {a : Int64} (hd : Distinct steps) (hk : k ∈ sendsOf steps) :
    .registry (.begin k a) ∉ steps := by
  intro hm
  obtain ⟨n, hn⟩ := mem_sendsOf.mp hk
  cases eq_of_nodup_filterMap hd hn hm rfl rfl

end Uplink.Dispatch
